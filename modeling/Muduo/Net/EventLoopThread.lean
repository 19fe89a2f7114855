import Muduo.Net.EventLoop

/-!
# EventLoopThread — a loop on its own thread, and the requests to quit

`muduo/net/EventLoopThread.cc`: the owner starts the thread and waits until `threadFunc` has
published the pointer to its loop; it may then call `quit()`, and the destructor does.  The two
threads interleave at every read and write of `quit_` and `loop_`; the steps of the loop itself
are those of `EventLoop`.

`loop()` begins with `quit_ = false`, and the pointer is published before `loop()` is called, so a
request that comes in between is erased (`quit_erased`), and the owner then waits in `join` for a
thread that does not end (`joining_forever`).  Requests that come later are kept
(`quit_kept_of_meets`).
-/

namespace Muduo
namespace Net

/-- Where `threadFunc` is. -/
inductive ThreadFunc
  | notStarted
  /-- The loop is constructed; `callback_` may be running. -/
  | initializing
  /-- `loop_` is set and the owner notified. -/
  | published
  /-- From the call of `loop()` on. -/
  | looping
  /-- `loop_` is cleared, the loop destroyed. -/
  | finished
  deriving DecidableEq, Repr

/-- The loop object exists. -/
def ThreadFunc.live : ThreadFunc → Bool
  | .initializing => true
  | .published => true
  | .looping => true
  | _ => false

/-- `loop()` has executed its `quit_ = false`. -/
def ThreadFunc.entered : ThreadFunc → Bool
  | .looping => true
  | .finished => true
  | _ => false

/-- Where the owner of the `EventLoopThread` is. -/
inductive Owner
  | created
  /-- In `startLoop`, waiting for `loop_`. -/
  | starting
  /-- `startLoop` has returned the pointer. -/
  | running
  /-- In the destructor, before the test of `loop_`. -/
  | destroying
  /-- In `quit()`, before the assignment; `dtor` when the destructor has called it. -/
  | quitting (dtor : Bool)
  /-- In `quit()`, before the `wakeup()`. -/
  | waking (dtor : Bool)
  /-- In `thread_.join()`. -/
  | joining
  | done
  deriving DecidableEq, Repr

structure EventLoopThread (F : Type) where
  loop : EventLoop F
  thread : ThreadFunc
  owner : Owner
  /-- `loop_ != NULL`. -/
  loop_ : Bool
  exiting : Bool
  /-- Some `quit()` has executed its assignment. -/
  requested : Bool
  deriving DecidableEq, Repr

namespace EventLoopThread

variable {F : Type}

def new : EventLoopThread F where
  loop := EventLoop.new
  thread := .notStarted
  owner := .created
  loop_ := false
  exiting := false
  requested := false

/-! ## Steps -/

inductive Act (F : Type)
  /-- `startLoop()`, up to `thread_.start()`. -/
  | start
  /-- `startLoop()` finds `loop_` set and returns it. -/
  | received
  /-- The owner calls `quit()`. -/
  | callQuit
  /-- The destructor is entered. -/
  | destroy
  /-- The test `loop_ != NULL` of the destructor. -/
  | readLoop
  /-- `quit_ = true`. -/
  | setQuit (dtor : Bool)
  /-- `wakeup()`, and the return of `quit()`. -/
  | wakeup (dtor : Bool)
  | joined
  /-- `threadFunc` sets `loop_` and notifies. -/
  | publish
  /-- `loop()` has returned: `threadFunc` clears `loop_` and returns. -/
  | leave
  /-- A step of the loop, of the user code on its thread, or of threads that queue functors. -/
  | inLoop (a : EventLoop.Act F)
  deriving DecidableEq, Repr

def next (s : EventLoopThread F) : Act F → EventLoopThread F
  | .start => { s with owner := .starting, thread := .initializing }
  | .received => { s with owner := .running }
  | .callQuit => { s with owner := .quitting false }
  | .destroy => { s with owner := .destroying, exiting := true }
  | .readLoop => { s with owner := if s.loop_ then .quitting true else .done }
  | .setQuit dtor =>
      { s with owner := .waking dtor, loop := s.loop.next .quit, requested := true }
  | .wakeup dtor =>
      { s with owner := if dtor then .joining else .running, loop := s.loop.next .notify }
  | .joined => { s with owner := .done }
  | .publish => { s with thread := .published, loop_ := true }
  | .leave => { s with thread := .finished, loop_ := false }
  | .inLoop .loop => { s with thread := .looping, loop := s.loop.next .loop }
  | .inLoop .quit => { s with loop := s.loop.next .quit, requested := true }
  | .inLoop a => { s with loop := s.loop.next a }

def Enabled (s : EventLoopThread F) : Act F → Prop
  -- `assert(!thread_.started())`
  | .start => s.owner = .created ∧ s.thread = .notStarted
  | .received => s.owner = .starting ∧ s.loop_ = true
  | .callQuit => s.owner = .running
  | .destroy => s.owner = .created ∨ s.owner = .running
  | .readLoop => s.owner = .destroying
  | .setQuit dtor => s.owner = .quitting dtor
  | .wakeup dtor => s.owner = .waking dtor
  | .joined => s.owner = .joining ∧ s.thread = .finished
  | .publish => s.thread = .initializing
  | .leave => s.thread = .looping ∧ s.loop.pc = .outside
  | .inLoop .loop => s.thread = .published ∧ EventLoop.Enabled s.loop .loop
  | .inLoop .quit => s.thread.live = true ∧ s.loop.pc.userCode = true
  | .inLoop a => s.thread.live = true ∧ EventLoop.Enabled s.loop a

instance (s : EventLoopThread F) (a : Act F) : Decidable (Enabled s a) :=
  match a with
  | .start => inferInstanceAs (Decidable (_ ∧ _))
  | .received => inferInstanceAs (Decidable (_ ∧ _))
  | .callQuit => inferInstanceAs (Decidable (_ = _))
  | .destroy => inferInstanceAs (Decidable (_ ∨ _))
  | .readLoop => inferInstanceAs (Decidable (_ = _))
  | .setQuit _ => inferInstanceAs (Decidable (_ = _))
  | .wakeup _ => inferInstanceAs (Decidable (_ = _))
  | .joined => inferInstanceAs (Decidable (_ ∧ _))
  | .publish => inferInstanceAs (Decidable (_ = _))
  | .leave => inferInstanceAs (Decidable (_ ∧ _))
  | .inLoop a => by
      cases a <;> exact inferInstanceAs (Decidable (_ ∧ _))

def system (F : Type) : StepSystem (EventLoopThread F) (Act F) :=
  StepSystem.ofNext (· = EventLoopThread.new) Enabled next

/-! ## Requests to quit -/

variable {s t : EventLoopThread F}

/-- After a request the loop does not go into `epoll_wait` with `quit_` unset, and the owner does
not wait in `join` for a loop with `quit_` unset. -/
def QuitKept (s : EventLoopThread F) : Prop :=
  (s.loop.pc = .polling → s.requested = true → s.loop.quit = true) ∧
    (s.owner = .joining → s.loop.quit = true)

/-- `quit_ = true` is executed after the `quit_ = false` of `loop()`. -/
def Meets (s : EventLoopThread F) : Act F → Prop
  | .setQuit _ => s.thread.entered = true
  | .inLoop .quit => s.thread.entered = true
  | _ => True

/-- A request has come after the `quit_ = false` of `loop()`, and `quit_` still holds it. -/
structure Kept (s : EventLoopThread F) : Prop where
  requested : s.requested = true → s.thread.entered = true ∧ s.loop.quit = true
  waking : ∀ dtor, s.owner = .waking dtor → s.requested = true
  joining : s.owner = .joining → s.requested = true

theorem Kept.quitKept (h : Kept s) : QuitKept s := by
  refine ⟨?_, ?_⟩
  · intro _ hreq
    exact (h.requested hreq).2
  · intro hjoin
    exact (h.requested (h.joining hjoin)).2

/-- A step that leaves the owner and the request alone. -/
theorem Kept.keep (h : Kept s) (howner : t.owner = s.owner := by rfl)
    (hreq : t.requested = s.requested := by rfl)
    (hentered : s.thread.entered = true → t.thread.entered = true := by exact id)
    (hquit : s.loop.quit = true → t.loop.quit = true := by exact id) : Kept t := by
  refine ⟨?_, ?_, ?_⟩
  · intro hr
    rw [hreq] at hr
    exact ⟨hentered (h.requested hr).1, hquit (h.requested hr).2⟩
  · intro dtor hwaking
    rw [howner] at hwaking
    exact hreq.trans (h.waking dtor hwaking)
  · intro hjoining
    rw [howner] at hjoining
    exact hreq.trans (h.joining hjoining)

/-- The owner moves on to a place outside `quit()` and `join`. -/
theorem Kept.move (h : Kept s) (hwaking : ∀ dtor, t.owner ≠ .waking dtor)
    (hjoining : t.owner ≠ .joining) (hreq : t.requested = s.requested := by rfl)
    (hentered : s.thread.entered = true → t.thread.entered = true := by exact id)
    (hquit : s.loop.quit = true → t.loop.quit = true := by exact id) : Kept t := by
  refine ⟨?_, ?_, ?_⟩
  · intro hr
    rw [hreq] at hr
    exact ⟨hentered (h.requested hr).1, hquit (h.requested hr).2⟩
  · intro dtor hw
    exact absurd hw (hwaking dtor)
  · intro hj
    exact absurd hj hjoining

theorem step_kept (h : Kept s) {a : Act F} (hmeets : Meets s a) (hen : Enabled s a) :
    Kept (s.next a) := by
  cases a with
  | start =>
      refine h.move (by simp [next]) (by simp [next]) rfl ?_
      simp [hen.2, ThreadFunc.entered]
  | received => exact h.move (by simp [next]) (by simp [next])
  | callQuit => exact h.move (by simp [next]) (by simp [next])
  | destroy => exact h.move (by simp [next]) (by simp [next])
  | readLoop =>
      refine h.move ?_ ?_
      · intro dtor
        simp only [next]
        split <;> simp
      · simp only [next]
        split <;> simp
  | setQuit dtor => exact ⟨fun _ => ⟨hmeets, rfl⟩, fun _ _ => rfl, fun _ => rfl⟩
  | wakeup dtor =>
      have hreq := h.waking dtor hen
      exact ⟨h.requested, fun _ _ => hreq, fun _ => hreq⟩
  | joined => exact h.move (by simp [next]) (by simp [next])
  | publish =>
      refine h.keep rfl rfl ?_
      simp [show s.thread = _ from hen, ThreadFunc.entered]
  | leave => exact h.keep rfl rfl (fun _ => rfl)
  | inLoop a =>
      cases a with
      | loop =>
          refine ⟨?_, h.waking, h.joining⟩
          intro hreq
          -- No request precedes `loop()`.
          have hentered := (h.requested hreq).1
          rw [hen.1] at hentered
          cases hentered
      | quit => exact ⟨fun _ => ⟨hmeets, rfl⟩, fun _ _ => rfl, fun _ => rfl⟩
      | queueInLoop cb =>
          refine h.keep rfl rfl id ?_
          simp only [next, EventLoop.next]
          split <;> exact id
      | call =>
          refine h.keep rfl rfl id ?_
          simp only [next, EventLoop.next]
          split <;> exact id
      | _ => exact h.keep

/-- In every run whose requests to quit come after the start of `loop()`, none is erased. -/
theorem quit_kept_of_meets (hs : ((system F).restrict Meets).Reachable s) : QuitKept s := by
  have hkept : Kept s := by
    refine hs.invariant ?_ ?_
    · rintro s rfl
      refine ⟨?_, ?_, ?_⟩ <;> simp [new]
    · rintro s a t h ⟨hmeets, hen, rfl⟩
      exact step_kept h hmeets hen
  exact hkept.quitKept

/-- The loop runs a functor, the owner destroys the thread object while the loop polls. -/
def quitRun : List (Act Nat) :=
  [.start, .publish, .inLoop .loop, .received, .inLoop (.push 1 10), .inLoop .test,
    .inLoop (.wakeup 1), .destroy, .readLoop, .setQuit true, .wakeup true]

def quitState : EventLoopThread Nat :=
  quitRun.foldl next EventLoopThread.new

theorem quit_kept_of_meets_destroy :
    (((system Nat).restrict Meets).Reachable quitState ∧ quitState.owner = .joining ∧
      quitState.loop.pc = .polling) ∧ QuitKept quitState := by
  have hallowed : StepSystem.AllowedAlong (fun s a => Meets s a ∧ Enabled s a) next
      EventLoopThread.new quitRun := by
    simp [quitRun, StepSystem.AllowedAlong, Meets, Enabled, next, EventLoopThread.new,
      EventLoop.Enabled, EventLoop.next, EventLoop.new, EventLoop.pushBack,
      EventLoop.writeEventfd, ThreadFunc.live, ThreadFunc.entered]
  have hs : ((system Nat).restrict Meets).Reachable quitState := by
    rw [system, StepSystem.restrict_ofNext]
    exact (StepSystem.run_foldl hallowed).reachable (StepSystem.Reachable.init rfl)
  exact ⟨⟨hs, by decide, by decide⟩, quit_kept_of_meets hs⟩

/-! ## An erased request -/

/-- The owner waits in `join` for a loop that is not told to quit. -/
structure Stuck (s : EventLoopThread F) : Prop where
  joining : s.owner = .joining
  looping : s.thread = .looping
  quit : s.loop.quit = false
  inside : s.loop.pc ≠ .outside

theorem Stuck.step (h : Stuck s) {a : Act F} (ha : a ≠ .inLoop .quit) (hen : Enabled s a) :
    Stuck (s.next a) := by
  rcases h with ⟨hjoining, hlooping, hquit, hinside⟩
  cases a with
  | inLoop a =>
      -- Of the steps of the loop only `loop` and `quit` write `quit_`.
      cases a with
      | loop => exact absurd (hlooping.symm.trans hen.1) (by decide)
      | quit => exact absurd rfl ha
      | test => exact ⟨hjoining, hlooping, hquit, by simp [next, EventLoop.next, hquit]⟩
      | queueInLoop cb =>
          refine ⟨hjoining, hlooping, ?_, ?_⟩
          · simp only [next, EventLoop.next]
            split <;> exact hquit
          · simp only [next, EventLoop.next]
            split <;> exact hinside
      | call =>
          refine ⟨hjoining, hlooping, ?_, ?_⟩
          · simp only [next, EventLoop.next]
            split <;> exact hquit
          · simp only [next, EventLoop.next]
            split <;> exact hinside
      | push thread cb => exact ⟨hjoining, hlooping, hquit, hinside⟩
      | wakeup thread => exact ⟨hjoining, hlooping, hquit, hinside⟩
      | notify => exact ⟨hjoining, hlooping, hquit, hinside⟩
      | _ => exact ⟨hjoining, hlooping, hquit, by simp [next, EventLoop.next]⟩
  | start => exact absurd (hjoining.symm.trans hen.1) (by decide)
  | received => exact absurd (hjoining.symm.trans hen.1) (by decide)
  | callQuit => exact absurd (hjoining.symm.trans hen) (by decide)
  | destroy =>
      rcases hen with hen | hen
      · exact absurd (hjoining.symm.trans hen) (by decide)
      · exact absurd (hjoining.symm.trans hen) (by decide)
  | readLoop => exact absurd (hjoining.symm.trans hen) (by decide)
  | setQuit dtor => exact absurd (hjoining.symm.trans hen) (by simp)
  | wakeup dtor => exact absurd (hjoining.symm.trans hen) (by simp)
  | joined => exact absurd (hlooping.symm.trans hen.2) (by decide)
  | publish => exact absurd (hlooping.symm.trans hen) (by decide)
  | leave => exact absurd hen.2 hinside

/-- Unless user code on the loop thread calls `quit()`, the owner waits for ever. -/
theorem joining_forever {as : List (Act F)} (hrun : (system F).Run s as t)
    (has : .inLoop .quit ∉ as) : Stuck s → Stuck t := by
  induction hrun with
  | nil s =>
      intro h
      exact h
  | cons hstep _ ih =>
      intro h
      rcases hstep with ⟨hen, rfl⟩
      refine ih (fun hin => has (List.mem_cons_of_mem _ hin)) (h.step ?_ hen)
      rintro rfl
      exact has List.mem_cons_self

/-- The thread object is destroyed between the publication of the pointer and `loop()`. -/
def erasedRun : List (Act Nat) :=
  [.start, .publish, .received, .destroy, .readLoop, .setQuit true, .wakeup true, .inLoop .loop,
    .inLoop .test]

def erasedState : EventLoopThread Nat :=
  erasedRun.foldl next EventLoopThread.new

/-- `loop()` has erased the request of the destructor, which now waits in `join`. -/
theorem quit_erased :
    ((system Nat).Reachable erasedState ∧ ¬ QuitKept erasedState) ∧ Stuck erasedState := by
  have hrun : (system Nat).Run EventLoopThread.new erasedRun erasedState :=
    StepSystem.run_foldl (by decide)
  refine ⟨⟨hrun.reachable (StepSystem.Reachable.init rfl), ?_⟩, ?_⟩
  · intro h
    exact absurd (h.1 (by decide) (by decide)) (by decide)
  · exact ⟨by decide, by decide, by decide, by decide⟩

end EventLoopThread
end Net
end Muduo
