import Muduo.Net.EPoller

/-!
# EPollerInterest — channels without interest and the interest set of the kernel

`updataChannel` chooses the operation of `epoll_ctl` from the old index of the channel and looks
at the new mask only for a channel that is in the interest set.  A channel without interest that
is not in the set is therefore added, with an empty mask, and the kernel may report `EPOLLHUP` and
`EPOLLERR` for it.

`silent_iff_dropped` says after which sequences of operations that is so: each further operation
that leaves the channel without interest drops it from the set or adds it again, in turn.
-/

namespace Muduo
namespace Net
namespace EPoller

variable {p p' : EPoller} {channel : Addr} {c : Channel} {h : List Interest}

/-! ## What the kernel may report -/

/-- `epoll_wait` may return the mask `revents` for a channel. -/
def CanReport (p : EPoller) (channel : Addr) (revents : Mask) : Prop :=
  ∃ fd event, p.interest fd = some event ∧ event.ptr = channel ∧
    Reportable event.events revents

/-- The fd of the channel is not in the interest set, and nothing can be reported for it. -/
def Silent (p : EPoller) (channel : Addr) (c : Channel) : Prop :=
  p.interest c.fd = none ∧ ∀ revents, ¬ CanReport p channel revents

theorem Registered.silent_iff (hreg : Registered p) (hc : p.objects channel = some c) :
    Silent p channel c ↔ p.interest c.fd = none := by
  constructor
  · exact And.left
  · intro hnone
    refine ⟨hnone, ?_⟩
    rintro revents ⟨fd, event, hevent, hptr, _⟩
    -- The entry belongs to a channel at `channel`, hence to this one.
    by_cases hfd : ∀ a d, p.objects a = some d → d.fd ≠ fd
    · rw [(hreg.absent hfd).2] at hevent
      cases hevent
    · push Not at hfd
      rcases hfd with ⟨a, d, hd, rfl⟩
      rw [(hreg.placed hd).2] at hevent
      have ha : a = channel := by
        unfold kernelEntry at hevent
        split at hevent
        · cases hevent
          exact hptr
        · cases hevent
      subst ha
      rw [hc] at hd
      cases hd
      rw [← (hreg.placed hc).2, hnone] at hevent
      cases hevent

/-! ## The operations on one channel -/

/-- The operations on a channel since its creation or its last `remove`, newest first. -/
def record (channel : Addr) (h : List Interest) : Act → List Interest
  | .create a _ => if a = channel then [] else h
  | .setInterest a op => if a = channel then op :: h else h
  | .remove a => if a = channel then [] else h
  | .destroy _ => h

def history (channel : Addr) (as : List Act) : List Interest :=
  as.foldl (record channel) []

/-- The mask that the operations leave. -/
def eventsAfter : List Interest → Mask
  | [] => kNoneEvent
  | op :: h => op.edit (eventsAfter h)

/-- How many of the latest operations have left the channel without interest. -/
def idleRun : List Interest → Nat
  | [] => 0
  | op :: h => if (eventsAfter (op :: h)).isNoneEvent = true then idleRun h + 1 else 0

/-- Some operation has left the channel with an interest. -/
def everInterested : List Interest → Prop
  | [] => False
  | op :: h => (eventsAfter (op :: h)).isNoneEvent = false ∨ everInterested h

instance decidableEverInterested : (h : List Interest) → Decidable (everInterested h)
  | [] => inferInstanceAs (Decidable False)
  | op :: h =>
      have := decidableEverInterested h
      inferInstanceAs (Decidable ((eventsAfter (op :: h)).isNoneEvent = false ∨ everInterested h))

/-- The operations without interest come in an odd number after an interest, or in an even
number if there has been none. -/
def Dropped (h : List Interest) : Prop :=
  if everInterested h then idleRun h % 2 = 1 else idleRun h % 2 = 0

instance (h : List Interest) : Decidable (Dropped h) :=
  inferInstanceAs (Decidable (if everInterested h then _ else _))

/-- The index that the operations leave. -/
def indexAfter : List Interest → Index
  | [] => .kNew
  | op :: h =>
      if indexAfter h = .kAdded ∧ (eventsAfter (op :: h)).isNoneEvent = true then .kDeleted
      else .kAdded

theorem indexAfter_eq_kAdded_iff (h : List Interest) :
    indexAfter h = .kAdded ↔ ¬ Dropped h := by
  induction h with
  | nil => simp [indexAfter, Dropped, everInterested, idleRun]
  | cons op h ih =>
      by_cases hidle : (eventsAfter (op :: h)).isNoneEvent = true
      · -- One more operation without interest turns the registration over.
        have hever : everInterested (op :: h) ↔ everInterested h := by
          simp [everInterested, hidle]
        have hrun : idleRun (op :: h) = idleRun h + 1 := by
          simp [idleRun, hidle]
        have hturn : Dropped (op :: h) ↔ ¬ Dropped h := by
          unfold Dropped
          rw [if_congr hever rfl rfl, hrun]
          split <;> omega
        rw [hturn, ← ih]
        by_cases hadded : indexAfter h = .kAdded
        · simp [indexAfter, hidle, hadded]
        · simp [indexAfter, hadded]
      · have hever : everInterested (op :: h) := Or.inl (by simpa using hidle)
        simp [indexAfter, hidle, Dropped, hever, idleRun]

/-! ## Runs -/

/-- The object of the channel is what the operations have made of it. -/
def Follows (p : EPoller) (channel : Addr) (h : List Interest) : Prop :=
  ∀ c, p.objects channel = some c → c.events = eventsAfter h ∧ c.index = indexAfter h

theorem Follows.put {a : Addr} {d : Channel} (hfollows : Follows p channel h) {h' : List Interest}
    (hown : a = channel → d.events = eventsAfter h' ∧ d.index = indexAfter h')
    (hother : a ≠ channel → h' = h) : Follows (p.put a d) channel h' := by
  intro c hc
  by_cases ha : a = channel
  · subst ha
    simp only [EPoller.put, Function.update_self, Option.some.injEq] at hc
    exact hc ▸ hown rfl
  · rw [hother ha]
    exact hfollows c (by simpa [EPoller.put, Ne.symm ha] using hc)

theorem Follows.step (hfollows : Follows p channel h) (hreg : Registered p) {a : Act}
    (hen : Enabled p a) (hexec : exec p a = .ok p') : Follows p' channel (record channel h a) := by
  cases a with
  | create a fd =>
      rw [show exec p (.create a fd) = .ok (p.create a fd) from rfl,
        create_ok hreg hen.2] at hexec
      cases hexec
      refine hfollows.put ?_ ?_
      · rintro rfl
        simp [record, Channel.new, eventsAfter, indexAfter]
      · intro ha
        simp [record, ha]
  | setInterest a op =>
      rcases hen with ⟨d, hd⟩
      rw [show exec p (.setInterest a op) = p.setInterest a op from rfl,
        setInterest_ok hreg hd op] at hexec
      cases hexec
      refine hfollows.put ?_ ?_
      · rintro rfl
        rcases hfollows d hd with ⟨hevents, hindex⟩
        rw [show record a h (.setInterest a op) = op :: h by simp [record]]
        refine ⟨by simp [Channel.edit, eventsAfter, hevents], ?_⟩
        simp only [Channel.edit, indexAfter, eventsAfter, hevents, hindex]
        congr
      · intro ha
        simp [record, ha]
  | remove a =>
      rcases hen with ⟨d, hd, hnone, hadded⟩
      rw [show exec p (.remove a) = p.remove a from rfl,
        remove_ok hreg hd hnone hadded] at hexec
      cases hexec
      refine hfollows.put ?_ ?_
      · rintro rfl
        have hevents : d.events = kNoneEvent := by
          simpa [Channel.isNoneEvent, Mask.isNoneEvent] using hnone
        simp [record, Channel.removed, eventsAfter, indexAfter, hevents]
      · intro ha
        simp [record, ha]
  | destroy a =>
      rcases hen with ⟨d, hd, hadded⟩
      rw [show exec p (.destroy a) = p.destroy a from rfl, destroy_ok hreg hd hadded] at hexec
      cases hexec
      intro c hc
      by_cases ha : channel = a
      · simp [ha] at hc
      · exact hfollows c (by simpa [ha] using hc)

theorem run_follows {as : List Act} (hrun : system.Run p as p') :
    ∀ {h : List Interest}, Registered p → Follows p channel h →
      Registered p' ∧ Follows p' channel (as.foldl (record channel) h) := by
  induction hrun with
  | nil p =>
      intro h hreg hfollows
      exact ⟨hreg, hfollows⟩
  | cons hstep _ ih =>
      intro h hreg hfollows
      rcases hstep with ⟨hen, hexec⟩
      have hnext := hfollows.step hreg hen hexec
      rcases exec_ok hreg hen with ⟨p₁, hp₁, hreg₁⟩
      rw [hexec] at hp₁
      cases hp₁
      exact ih hreg₁ hnext

/-- A channel is out of the interest set, and nothing can be reported for it, exactly after the
sequences of operations that have dropped it. -/
theorem silent_iff_dropped {as : List Act} (hrun : system.Run EPoller.new as p)
    (hc : p.objects channel = some c) :
    Silent p channel c ↔ Dropped (history channel as) := by
  have hnew : Follows EPoller.new channel [] := by
    intro c hc
    cases hc
  rcases run_follows hrun registered_new hnew with ⟨hreg, hfollows⟩
  have hindex : c.index = indexAfter (history channel as) := (hfollows c hc).2
  rw [hreg.silent_iff hc, (hreg.placed hc).2, ← not_iff_not, ← indexAfter_eq_kAdded_iff, ← hindex]
  cases hidx : c.index <;> simp [kernelEntry, hidx]

/-- The state after the actions `as`. -/
def after (as : List Act) : EPoller :=
  (StepSystem.execAll exec EPoller.new as).toOption.getD EPoller.new

/-- `disableAll` after `enableReading`. -/
def disableRun : List Act :=
  [.create 16 5, .setInterest 16 .enableReading, .setInterest 16 .disableAll]

theorem enabled_disableRun (as : List Act)
    (has : StepSystem.EnabledAlong Enabled exec (after disableRun) as) :
    StepSystem.EnabledAlong Enabled exec EPoller.new (disableRun ++ as) := by
  refine And.intro ⟨rfl, ?_⟩ (And.intro ⟨_, rfl⟩ (And.intro ⟨_, rfl⟩ has))
  intro a c h
  cases h

theorem silent_iff_dropped_disable :
    Silent (after disableRun) 16 ⟨5, 0, .kDeleted, true⟩ := by
  have hrun : system.Run EPoller.new disableRun (after disableRun) :=
    StepSystem.run_of_execAll (enabled_disableRun [] trivial) rfl
  exact (silent_iff_dropped hrun (by rfl)).2 (by decide)

/-- The second `disableAll` puts the fd back into the interest set, with an empty mask: a hang-up
is reported again, and the dispatch makes the close and the read callback. -/
theorem disableAll_twice_added :
    system.Run EPoller.new (disableRun ++ [.setInterest 16 .disableAll])
        (after (disableRun ++ [.setInterest 16 .disableAll])) ∧
      (∃ c, (after (disableRun ++ [.setInterest 16 .disableAll])).objects 16 = some c ∧
        c.isNoneEvent = true ∧
        ¬ Silent (after (disableRun ++ [.setInterest 16 .disableAll])) 16 c) ∧
      CanReport (after (disableRun ++ [.setInterest 16 .disableAll])) 16 EPOLLHUP ∧
      handleEventWithGuard EPOLLHUP = [.close, .read] := by
  refine ⟨StepSystem.run_of_execAll (enabled_disableRun _ ⟨⟨_, rfl⟩, trivial⟩) rfl,
    ⟨_, rfl, by rfl, ?_⟩, ⟨5, ⟨0, 16⟩, by rfl, by decide⟩, by decide⟩
  intro hsilent
  exact absurd hsilent.1 (by decide)

end EPoller
end Net
end Muduo
