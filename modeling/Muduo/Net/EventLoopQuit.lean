import Muduo.Net.EventLoopThread

/-!
# EventLoopQuit — a loop that is told to quit leaves

`EventLoopThread` says that a request to quit is kept if it comes after the start of `loop()`.
Here is what follows from a request that is kept.  The loop thread ends after the iteration it is
in, whatever the other threads and the functors queue meanwhile (`quit_leaves`): the calls of
functors apart it makes eight steps at most, and it calls those functors that were queued before
the swap of that iteration.  If the request finds it in `epoll_wait`, the `wakeup()` of `quit()`
brings it out.  What was queued after the last swap is never called.
-/

namespace Muduo
namespace Net

variable {F : Type}

namespace EventLoop

variable {s : EventLoop F}

/-- The loop thread goes on. -/
def Act.isProgress : Act F → Bool
  | .test => true
  | .epoll _ => true
  | .handleRead => true
  | .doPendingFunctors => true
  | .swap => true
  | .call => true
  | .finish => true
  | .destroy => true
  | _ => false

/-- A functor of the batch is called. -/
def Act.isCall : Act F → Bool
  | .call => true
  | _ => false

/-- The steps up to the end of `loop()` once `quit_` is set, without the calls of functors. -/
def ahead (s : EventLoop F) : Nat :=
  match s.pc with
  | .outside => 0
  | .testing => 1
  | .destroying => 2
  | .running => 3
  | .swapping => 4
  | .handling false => 5
  | .handling true => 6
  | .polling => 7

theorem ahead_le (s : EventLoop F) : s.ahead ≤ 7 := by
  unfold ahead
  split <;> decide

theorem ahead_congr {t : EventLoop F} (hpc : t.pc = s.pc) : t.ahead = s.ahead := by
  unfold ahead
  rw [hpc]

/-- A step moves the loop thread on, calls a functor, or leaves the loop thread where it is. -/
theorem ahead_next (hquit : s.quit = true) {a : Act F} (hloop : a ≠ .loop) (hen : Enabled s a) :
    (s.next a).ahead + (if a.isProgress then 1 else 0) ≤
      s.ahead + (if a.isCall then 1 else 0) := by
  cases a with
  | push thread cb => exact Nat.le_of_eq (ahead_congr rfl)
  | wakeup thread => exact Nat.le_of_eq (ahead_congr rfl)
  | queueInLoop cb =>
      refine Nat.le_of_eq (ahead_congr ?_)
      simp only [next]
      split <;> rfl
  | quit => exact Nat.le_of_eq (ahead_congr rfl)
  | notify => exact Nat.le_of_eq (ahead_congr rfl)
  | loop => exact absurd rfl hloop
  | test =>
      have hpc : s.pc = .testing := hen
      simp [ahead, next, hquit, hpc, Act.isProgress, Act.isCall]
  | epoll woken =>
      have hpc : s.pc = .polling := hen.1
      cases woken <;> simp [ahead, next, hpc, Act.isProgress, Act.isCall]
  | handleRead =>
      have hpc : s.pc = .handling true := hen
      simp [ahead, next, hpc, Act.isProgress, Act.isCall]
  | doPendingFunctors =>
      have hpc : s.pc = .handling false := hen
      simp [ahead, next, hpc, Act.isProgress, Act.isCall]
  | swap =>
      have hpc : s.pc = .swapping := hen
      simp [ahead, next, hpc, Act.isProgress, Act.isCall]
  | call =>
      refine Nat.add_le_add_right (Nat.le_of_eq (ahead_congr ?_)) 1
      simp only [next]
      split <;> rfl
  | finish =>
      have hpc : s.pc = .running := hen.1
      simp [ahead, next, hpc, Act.isProgress, Act.isCall]
  | destroy =>
      have hpc : s.pc = .destroying := hen
      simp [ahead, next, hpc, Act.isProgress, Act.isCall]

/-! ## What is called -/

/-- What is pushed stays in the record, and every call is recorded. -/
theorem records_next {a : Act F} (hen : Enabled s a) :
    s.pushed <+: (s.next a).pushed ∧
      (s.next a).executed.length = s.executed.length + (if a.isCall then 1 else 0) := by
  cases a with
  | push thread cb => exact ⟨List.prefix_append _ _, rfl⟩
  | queueInLoop cb =>
      simp only [next]
      split
      · exact ⟨List.prefix_append _ _, rfl⟩
      · exact ⟨List.prefix_append _ _, rfl⟩
  | call =>
      obtain ⟨_, hempty⟩ := hen
      cases hfunctors : s.functors with
      | nil => simp [hfunctors] at hempty
      | cons ticket rest => simp [next, hfunctors, Act.isCall]
  | _ => exact ⟨List.prefix_refl _, rfl⟩

/-- Every functor that has been called was queued before the last swap. -/
def CalledInTime (s : EventLoop F) : Prop :=
  ∀ e ∈ s.executed, e.1.swaps < s.swaps

theorem calledInTime_next (h : CalledInTime s) (hordered : s.Ordered) (a : Act F) :
    CalledInTime (s.next a) := by
  cases a with
  | queueInLoop cb =>
      simp only [next]
      split <;> exact h
  | swap => exact fun e he => Nat.lt_succ_of_lt (h e he)
  | call =>
      cases hfunctors : s.functors with
      | nil => simpa [next, hfunctors] using h
      | cons ticket rest =>
          have hswaps := hordered.batch ticket (by simp [hfunctors])
          intro e he
          simp only [next, hfunctors, List.mem_append, List.mem_singleton] at he ⊢
          rcases he with he | rfl
          · exact h e he
          · exact Nat.lt_of_succ_le (Nat.le_of_eq hswaps)
  | _ => exact h

/-- Between two calls of `doPendingFunctors`, what has been called is what was queued before the
last swap. -/
theorem executed_eq (h : s.Ordered) (hcalled : CalledInTime s) (hpc : s.pc ≠ .running) :
    s.executed.map Prod.fst = s.pushed.filter fun ticket => ticket.swaps < s.swaps := by
  have hsplit := h.split
  rw [h.between hpc, List.append_nil] at hsplit
  have hall : (s.executed.map Prod.fst).filter (fun ticket => ticket.swaps < s.swaps) =
      s.executed.map Prod.fst := by
    rw [List.filter_eq_self]
    intro ticket hin
    obtain ⟨e, he, rfl⟩ := List.mem_map.1 hin
    simpa using hcalled e he
  have hnone : s.pendingFunctors.filter (fun ticket => ticket.swaps < s.swaps) = [] := by
    rw [List.filter_eq_nil_iff]
    intro ticket hin
    simp [h.pending ticket hin]
  rw [← hsplit, List.filter_append, hall, hnone, List.append_nil]

/-- What has been queued since `s` and before the last swap of `t`. -/
def inTime (s t : EventLoop F) : List (Ticket F) :=
  (t.pushed.drop s.pushed.length).filter fun ticket => ticket.swaps < t.swaps

/-- The functors called since `s` were in its queues or have come in time. -/
theorem length_executed_le {t : EventLoop F} (hs : s.Ordered) (ht : t.Ordered)
    (hcalled : CalledInTime t) (hpushed : s.pushed <+: t.pushed) :
    t.executed.length ≤
      s.executed.length + s.functors.length + s.pendingFunctors.length + (inTime s t).length := by
  have hsub : (t.executed.map Prod.fst).Sublist
      (t.pushed.filter fun ticket => ticket.swaps < t.swaps) := by
    have hprefix : t.executed.map Prod.fst <+: t.pushed :=
      ⟨t.functors ++ t.pendingFunctors, by simpa using ht.split⟩
    have hfilter := hprefix.sublist.filter fun ticket => decide (ticket.swaps < t.swaps)
    rwa [List.filter_eq_self.2] at hfilter
    intro ticket hin
    obtain ⟨e, he, rfl⟩ := List.mem_map.1 hin
    simpa using hcalled e he
  obtain ⟨new, hnew⟩ := hpushed
  have hlength := hsub.length_le
  have hold : s.pushed.length =
      s.executed.length + s.functors.length + s.pendingFunctors.length := by
    simp [← hs.split, Nat.add_assoc]
  have hfront := List.length_filter_le (fun ticket => decide (ticket.swaps < t.swaps)) s.pushed
  have htime : inTime s t = new.filter fun ticket => ticket.swaps < t.swaps := by
    simp [inTime, ← hnew]
  rw [← hnew, List.filter_append, List.length_append, List.length_map] at hlength
  rw [htime]
  omega

/-- The loop thread can always go on inside `loop()`: `epoll_wait` times out if nothing happens. -/
theorem exists_progress (h : s.pc ≠ .outside) :
    ∃ a : Act F, a.isProgress = true ∧ a ≠ .loop ∧ a ≠ .quit ∧ Enabled s a := by
  cases hpc : s.pc with
  | outside => exact absurd hpc h
  | testing => exact ⟨.test, rfl, by simp, by simp, hpc⟩
  | polling => exact ⟨.epoll false, rfl, by simp, by simp, hpc, by simp⟩
  | handling woken =>
      cases woken with
      | false => exact ⟨.doPendingFunctors, rfl, by simp, by simp, hpc⟩
      | true => exact ⟨.handleRead, rfl, by simp, by simp, hpc⟩
  | swapping => exact ⟨.swap, rfl, by simp, by simp, hpc⟩
  | running =>
      cases hempty : s.functors.isEmpty with
      | false => exact ⟨.call, rfl, by simp, by simp, hpc, hempty⟩
      | true => exact ⟨.finish, rfl, by simp, by simp, hpc, hempty⟩
  | destroying => exact ⟨.destroy, rfl, by simp, by simp, hpc⟩

end EventLoop

namespace EventLoopThread

variable {s t : EventLoopThread F} {a : Act F}

def Act.isProgress : Act F → Bool
  | .leave => true
  | .inLoop a => a.isProgress
  | _ => false

def Act.isCall : Act F → Bool
  | .inLoop a => a.isCall
  | _ => false

/-- The steps up to the end of the loop thread once `quit_` is set, without the calls of
functors. -/
def remaining (s : EventLoopThread F) : Nat :=
  if s.thread = .finished then 0 else s.loop.ahead + 1

/-- The loop has been told to quit and will see it. -/
structure Told (s : EventLoopThread F) : Prop where
  kept : Kept s
  requested : s.requested = true

/-- A request that finds the loop in `epoll_wait` brings it out: the eventfd is readable, or the
`wakeup()` of `quit()` is still to come. -/
def Woken (s : EventLoopThread F) : Prop :=
  s.requested = true → s.loop.pc = .polling → 0 < s.loop.eventfd ∨ ∃ dtor, s.owner = .waking dtor

structure Inv (s : EventLoopThread F) : Prop where
  kept : Kept s
  woken : Woken s
  ordered : s.loop.Ordered
  called : s.loop.CalledInTime

instance (s : EventLoopThread F) (a : Act F) : Decidable (Meets s a) :=
  match a with
  | .setQuit _ => inferInstanceAs (Decidable (_ = _))
  | .inLoop .quit => inferInstanceAs (Decidable (_ = _))
  | .inLoop (.push _ _) | .inLoop (.wakeup _) | .inLoop (.queueInLoop _) | .inLoop .notify
  | .inLoop .loop | .inLoop .test | .inLoop (.epoll _) | .inLoop .handleRead
  | .inLoop .doPendingFunctors | .inLoop .swap | .inLoop .call | .inLoop .finish
  | .inLoop .destroy => isTrue trivial
  | .start | .received | .callQuit | .destroy | .readLoop | .wakeup _ | .joined | .publish
  | .leave => isTrue trivial

theorem Told.entered (h : Told s) : s.thread.entered = true :=
  (h.kept.requested h.requested).1

theorem Told.quit (h : Told s) : s.loop.quit = true :=
  (h.kept.requested h.requested).2

theorem looping_of_live (hentered : s.thread.entered = true) (hlive : s.thread.live = true) :
    s.thread = .looping := by
  cases hthread : s.thread with
  | looping => rfl
  | notStarted | initializing | published =>
      rw [hthread] at hentered
      cases hentered
  | finished =>
      rw [hthread] at hlive
      cases hlive

/-- What a step in the loop is when the loop has been told to quit. -/
theorem Told.inLoop (h : Told s) {a : EventLoop.Act F} (hen : Enabled s (.inLoop a)) :
    s.thread = .looping ∧ a ≠ .loop ∧ EventLoop.Enabled s.loop a ∧
      s.next (.inLoop a) = { s with loop := s.loop.next a } := by
  have hentered := h.entered
  cases a with
  | loop =>
      rw [hen.1] at hentered
      cases hentered
  | quit =>
      refine ⟨looping_of_live hentered hen.1, by simp, trivial, ?_⟩
      rw [next, ← h.requested]
  | _ => exact ⟨looping_of_live hentered hen.1, by simp, hen.2, rfl⟩

theorem Told.remaining (h : Told s) (hen : Enabled s a) :
    (s.next a).remaining + (if a.isProgress then 1 else 0) ≤
      s.remaining + (if a.isCall then 1 else 0) := by
  cases a with
  | inLoop a =>
      obtain ⟨hthread, hloop, hen, heq⟩ := h.inLoop hen
      have hnext := EventLoop.ahead_next h.quit hloop hen
      have hne : s.thread ≠ .finished := by rw [hthread]; simp
      rw [heq, EventLoopThread.remaining, EventLoopThread.remaining, if_neg hne, if_neg hne]
      show (s.loop.next a).ahead + 1 + (if a.isProgress then 1 else 0) ≤
        s.loop.ahead + 1 + (if a.isCall then 1 else 0)
      omega
  | leave =>
      have hne : s.thread ≠ .finished := by rw [hen.1]; simp
      have hleft : (s.next .leave).thread = .finished := rfl
      rw [EventLoopThread.remaining, EventLoopThread.remaining, if_neg hne, if_pos hleft]
      show 0 + 1 ≤ s.loop.ahead + 1 + 0
      omega
  | start =>
      have hentered := h.entered
      rw [hen.2] at hentered
      cases hentered
  | publish =>
      have hentered := h.entered
      rw [show s.thread = .initializing from hen] at hentered
      cases hentered
  | _ => exact Nat.le_refl _

theorem requested_next (h : s.requested = true) (a : Act F) : (s.next a).requested = true := by
  cases a with
  | inLoop a => cases a <;> first | exact h | rfl
  | setQuit dtor => rfl
  | _ => exact h

/-- Only a `test` with `quit_` unset leads into `epoll_wait`. -/
theorem woken_inLoop (hkept : Kept s) (h : Woken s) {a : EventLoop.Act F}
    (hen : Enabled s (.inLoop a)) : Woken (s.next (.inLoop a)) := by
  intro hreq hpc
  cases a with
  | push thread cb => exact h hreq hpc
  | wakeup thread => exact Or.inl (Nat.succ_pos _)
  | queueInLoop cb =>
      have huser : s.loop.pc.userCode = true := hen.2
      have hsame : s.loop.pc = .polling := by
        simp only [next, EventLoop.next] at hpc
        split at hpc <;> exact hpc
      rw [hsame] at huser
      cases huser
  | quit =>
      have huser := hen.2
      rw [show s.loop.pc = .polling from hpc] at huser
      cases huser
  | notify => exact Or.inl (Nat.succ_pos _)
  | test =>
      have hquit := (hkept.requested hreq).2
      simp [next, EventLoop.next, hquit] at hpc
  | call =>
      have hrunning : s.loop.pc = .running := hen.2.1
      simp only [next, EventLoop.next] at hpc
      split at hpc <;> cases hrunning.symm.trans hpc
  | loop | epoll woken | handleRead | doPendingFunctors | swap | finish | destroy => cases hpc

theorem woken_step (hkept : Kept s) (h : Woken s) (hen : Enabled s a) : Woken (s.next a) := by
  have hother : (∀ dtor, s.owner ≠ .waking dtor) → s.requested = true → s.loop.pc = .polling →
      0 < s.loop.eventfd := by
    intro hnot hreq hpc
    rcases h hreq hpc with hpos | ⟨dtor, hwaking⟩
    · exact hpos
    · exact absurd hwaking (hnot dtor)
  cases a with
  | inLoop a => exact woken_inLoop hkept h hen
  | setQuit dtor => exact fun _ _ => Or.inr ⟨dtor, rfl⟩
  | wakeup dtor => exact fun _ _ => Or.inl (Nat.succ_pos _)
  | publish => exact h
  | leave => exact h
  | start => exact fun hreq hpc => Or.inl (hother (by simp [hen.1]) hreq hpc)
  | received => exact fun hreq hpc => Or.inl (hother (by simp [hen.1]) hreq hpc)
  | joined => exact fun hreq hpc => Or.inl (hother (by simp [hen.1]) hreq hpc)
  | callQuit =>
      have howner : s.owner = .running := hen
      exact fun hreq hpc => Or.inl (hother (by simp [howner]) hreq hpc)
  | destroy =>
      refine fun hreq hpc => Or.inl (hother (fun dtor hwaking => ?_) hreq hpc)
      rcases hen with hen | hen <;> cases hen.symm.trans hwaking
  | readLoop =>
      have howner : s.owner = .destroying := hen
      exact fun hreq hpc => Or.inl (hother (by simp [howner]) hreq hpc)

/-- The loop of the thread makes a step of its own, or one that leaves its records alone. -/
theorem loop_next (hen : Enabled s a) :
    (∃ b, EventLoop.Enabled s.loop b ∧ (s.next a).loop = s.loop.next b ∧ a.isCall = b.isCall) ∨
      (s.next a).loop = s.loop ∧ a.isCall = false := by
  cases a with
  | setQuit dtor => exact Or.inl ⟨.quit, trivial, rfl, rfl⟩
  | wakeup dtor => exact Or.inl ⟨.notify, trivial, rfl, rfl⟩
  | inLoop a =>
      cases a with
      | quit => exact Or.inl ⟨.quit, trivial, rfl, rfl⟩
      | loop => exact Or.inl ⟨.loop, hen.2, rfl, rfl⟩
      | _ => exact Or.inl ⟨_, hen.2, rfl, rfl⟩
  | _ => exact Or.inr ⟨rfl, rfl⟩

theorem ordered_step (h : s.loop.Ordered) (hen : Enabled s a) : (s.next a).loop.Ordered := by
  rcases loop_next hen with ⟨b, hb, heq, _⟩ | ⟨heq, _⟩
  · rw [heq]
    exact EventLoop.step_ordered h hb
  · rwa [heq]

theorem called_step (h : s.loop.CalledInTime) (hordered : s.loop.Ordered) (hen : Enabled s a) :
    (s.next a).loop.CalledInTime := by
  rcases loop_next hen with ⟨b, _, heq, _⟩ | ⟨heq, _⟩
  · rw [heq]
    exact EventLoop.calledInTime_next h hordered b
  · rwa [heq]

theorem records_step (hen : Enabled s a) :
    s.loop.pushed <+: (s.next a).loop.pushed ∧
      (s.next a).loop.executed.length =
        s.loop.executed.length + (if a.isCall then 1 else 0) := by
  rcases loop_next hen with ⟨b, hb, heq, hcall⟩ | ⟨heq, hcall⟩
  · rw [heq, hcall]
    exact EventLoop.records_next hb
  · rw [heq, hcall]
    exact ⟨List.prefix_refl _, rfl⟩

theorem Inv.step (h : Inv s) (hmeets : Meets s a) (hen : Enabled s a) : Inv (s.next a) :=
  ⟨step_kept h.kept hmeets hen, woken_step h.kept h.woken hen, ordered_step h.ordered hen,
    called_step h.called h.ordered hen⟩

theorem new_inv : Inv (new : EventLoopThread F) := by
  refine ⟨?_, fun _ hpc => ?_, EventLoop.new_ordered, fun _ => nofun⟩
  · refine ⟨?_, ?_, ?_⟩ <;> simp [new]
  · cases hpc

/-! ## Runs -/

theorem reachable_inv (hs : ((system F).restrict Meets).Reachable s) : Inv s := by
  refine hs.invariant ?_ ?_
  · rintro s rfl
    exact new_inv
  · rintro s a t h ⟨hmeets, hen, rfl⟩
    exact h.step hmeets hen

theorem run_told {as : List (Act F)} (hrun : ((system F).restrict Meets).Run s as t)
    (h : Inv s ∧ s.requested = true) :
    (Inv t ∧ t.requested = true) ∧
      t.remaining + as.countP Act.isProgress ≤ s.remaining + as.countP Act.isCall := by
  refine hrun.ranking_with (I := fun s => Inv s ∧ s.requested = true) ?_ h
  rintro s a t ⟨hinv, hreq⟩ ⟨hmeets, hen, rfl⟩
  exact ⟨⟨hinv.step hmeets hen, requested_next hreq a⟩, Told.remaining ⟨hinv.kept, hreq⟩ hen⟩

theorem run_records {as : List (Act F)} (hrun : ((system F).restrict Meets).Run s as t) :
    s.loop.pushed <+: t.loop.pushed ∧
      t.loop.executed.length = s.loop.executed.length + as.countP Act.isCall := by
  induction hrun with
  | nil s => exact ⟨List.prefix_refl _, rfl⟩
  | cons hstep _ ih =>
      obtain ⟨_, hen, rfl⟩ := hstep
      obtain ⟨hfirst, hcall⟩ := records_step hen
      obtain ⟨hrest, hcalls⟩ := ih
      refine ⟨hfirst.trans hrest, ?_⟩
      rw [hcalls, hcall, List.countP_cons]
      omega

/-- A loop thread that has not ended can go on. -/
theorem Told.progress (h : Told s) (hgoes : s.thread ≠ .finished) :
    ∃ a : Act F, a.isProgress = true ∧ Meets s a ∧ Enabled s a := by
  have hthread : s.thread = .looping := by
    have hentered := h.entered
    cases hthread : s.thread with
    | looping => rfl
    | finished => exact absurd hthread hgoes
    | notStarted | initializing | published =>
        rw [hthread] at hentered
        cases hentered
  by_cases hpc : s.loop.pc = .outside
  · exact ⟨.leave, rfl, trivial, hthread, hpc⟩
  · obtain ⟨a, hprogress, hloop, hquit, hen⟩ := EventLoop.exists_progress hpc
    have hlive : s.thread.live = true := by rw [hthread]; rfl
    refine ⟨.inLoop a, hprogress, ?_, ?_⟩
    · cases a with
      | quit => exact absurd rfl hquit
      | _ => trivial
    · cases a with
      | loop => exact absurd rfl hloop
      | quit => exact absurd rfl hquit
      | _ => exact ⟨hlive, hen⟩

/-- From a request to quit on, in every interleaving of the owner, the loop thread and any number
of threads that queue functors: the loop thread makes as many steps as it has functors to call and
eight more at most, and one for each functor that comes in time; as long as it has not ended it
can make one; it does not stay in `epoll_wait`; and when it has ended, the functors that were
called are those that were queued before the last swap, in this order. -/
theorem quit_leaves (hs : ((system F).restrict Meets).Reachable s) (hreq : s.requested = true)
    {as : List (Act F)} (hrun : ((system F).restrict Meets).Run s as t) :
    as.countP Act.isProgress ≤ s.loop.pendingFunctors.length + s.loop.functors.length + 8 +
        (EventLoop.inTime s.loop t.loop).length ∧
      (t.thread ≠ .finished → ∃ a : Act F, a.isProgress = true ∧ Meets t a ∧ Enabled t a) ∧
      (t.loop.pc = .polling → 0 < t.loop.eventfd ∨ ∃ dtor, t.owner = .waking dtor) ∧
      (t.loop.pc = .outside → t.loop.executed.map Prod.fst =
        t.loop.pushed.filter fun ticket => ticket.swaps < t.loop.swaps) := by
  have hbefore := reachable_inv hs
  obtain ⟨⟨hinv, htold⟩, hbound⟩ := run_told hrun ⟨hbefore, hreq⟩
  refine ⟨?_, Told.progress ⟨hinv.kept, htold⟩, hinv.woken htold, fun hpc => ?_⟩
  · obtain ⟨hpushed, hcalls⟩ := run_records hrun
    have hahead := EventLoop.ahead_le s.loop
    have hremaining : s.remaining ≤ s.loop.ahead + 1 := by
      unfold remaining
      split <;> omega
    have hcalled := EventLoop.length_executed_le hbefore.ordered hinv.ordered hinv.called hpushed
    omega
  · exact EventLoop.executed_eq hinv.ordered hinv.called (by simp [hpc])

/-- The owner destroys the thread object while the loop polls; a functor comes in time, another one
after the swap. -/
def lateRun : List (Act Nat) :=
  [.inLoop (.push 1 20), .inLoop (.epoll true), .inLoop .handleRead, .inLoop .doPendingFunctors,
    .inLoop .swap, .inLoop (.push 2 30), .inLoop .call, .inLoop .call, .inLoop .finish,
    .inLoop .destroy, .inLoop .test, .leave]

def leftState : EventLoopThread Nat :=
  lateRun.foldl next quitState

theorem quit_leaves_late :
    quitState.requested = true ∧ ((system Nat).restrict Meets).Run quitState lateRun leftState ∧
      lateRun.countP Act.isProgress ≤ 9 + (EventLoop.inTime quitState.loop leftState.loop).length ∧
      leftState.loop.executed.map Prod.fst =
        leftState.loop.pushed.filter fun ticket => ticket.swaps < leftState.loop.swaps := by
  have hbefore : ((system Nat).restrict Meets).Run EventLoopThread.new quitRun quitState := by
    rw [system, StepSystem.restrict_ofNext]
    exact StepSystem.run_foldl (by decide)
  have hrun : ((system Nat).restrict Meets).Run quitState lateRun leftState := by
    rw [system, StepSystem.restrict_ofNext]
    exact StepSystem.run_foldl (by decide)
  have hs := hbefore.reachable (StepSystem.Reachable.init rfl)
  obtain ⟨hbound, _, _, hcalled⟩ := quit_leaves hs (by decide) hrun
  exact ⟨by decide, hrun, hbound, hcalled (by decide)⟩

end EventLoopThread
end Net
end Muduo
