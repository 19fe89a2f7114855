import Muduo.Foundation.HeapView
import Muduo.Net.TimerBatch

/-!
# TimerAgenda — what a timer queue is for

To its users a timer is a number.  An `Agenda` has under each number what the user has asked for,
and nothing else: no addresses that are given out again, no second index, no sentry, no timerfd.  A
round takes out what is due, runs the callbacks, the earliest first, and puts back what repeats and
was not cancelled.

`refines_agenda` is the refinement: a run of the timer queue is, action by action, a run of an
agenda.
-/

namespace Muduo
namespace Net

/-! ## The agenda -/

structure Alarm where
  expiration : Int
  interval : Int
  repeat_ : Bool
  deriving DecidableEq, Repr

/-- A round of callbacks. -/
structure Round where
  now : Int
  due : Nat → Option Alarm
  /-- The callbacks that have not run yet, in order. -/
  rest : List Nat
  cancelled : List Nat

/-- What a round puts back under the number `n`. -/
def Round.again (r : Round) (n : Nat) : Option Alarm :=
  ((r.due n).filter fun a => a.repeat_ && !decide (n ∈ r.cancelled)).map fun a =>
    { a with expiration := r.now + a.interval }

structure Agenda where
  numCreated : Nat
  /-- Created and not yet on the agenda. -/
  created : Nat → Option Alarm
  pending : Nat → Option Alarm
  round : Option Round

namespace Agenda

def new : Agenda where
  numCreated := 0
  created := fun _ => none
  pending := fun _ => none
  round := none

inductive Act
  | create (alarm : Alarm)
  | add (n : Nat)
  | cancel (n : Nat)
  | start (now : Int) (order : List Nat)
  /-- The callback of `n`. -/
  | run (n : Nat)
  | finish
  deriving DecidableEq, Repr

def next (g : Agenda) : Act → Agenda
  | .create alarm =>
      { g with
        numCreated := g.numCreated + 1
        created := Function.update g.created (g.numCreated + 1) (some alarm) }
  | .add n =>
      { g with
        created := Function.update g.created n none
        pending := Function.update g.pending n (g.created n) }
  | .cancel n =>
      if (g.pending n).isSome then
        { g with pending := Function.update g.pending n none }
      else
        { g with round := g.round.map fun r => { r with cancelled := n :: r.cancelled } }
  | .start now order =>
      { g with
        pending := fun n => (g.pending n).filter fun a => decide (now < a.expiration)
        round := some
          { now := now
            due := fun n => (g.pending n).filter fun a => decide (a.expiration ≤ now)
            rest := order
            cancelled := [] } }
  | .run _ => { g with round := g.round.map fun r => { r with rest := r.rest.tail } }
  | .finish =>
      match g.round with
      | some r => { g with pending := fun n => (r.again n).or (g.pending n), round := none }
      | none => g

/-- `order` has the numbers of what is due at `now`, the earliest first. -/
structure DueInOrder (g : Agenda) (now : Int) (order : List Nat) : Prop where
  nodup : order.Nodup
  due : ∀ n, n ∈ order ↔ ∃ a ∈ g.pending n, a.expiration ≤ now
  sorted : order.Pairwise fun m n =>
    ∀ a ∈ g.pending m, ∀ b ∈ g.pending n, a.expiration ≤ b.expiration

def Enabled (g : Agenda) : Act → Prop
  | .create _ => True
  | .add n => (g.created n).isSome
  | .cancel _ => True
  | .start now order => g.round = none ∧ g.DueInOrder now order
  | .run n => ∃ r ∈ g.round, r.rest.head? = some n
  | .finish => ∃ r ∈ g.round, r.rest = []

def system : StepSystem Agenda Act :=
  StepSystem.ofNext (· = Agenda.new) Enabled next

theorem run_one {g : Agenda} {a : Act} (h : Enabled g a) : system.Run g [a] (next g a) :=
  StepSystem.Run.cons ⟨h, rfl⟩ (StepSystem.Run.nil _)

end Agenda

def Timer.alarm (t : Timer) : Alarm :=
  ⟨t.expiration, t.interval, t.repeat_⟩

theorem Timer.restart_alarm {t : Timer} {now : Int} (h : t.repeat_ = true) :
    (t.restart now).alarm = { t.alarm with expiration := now + t.alarm.interval } := by
  simp [Timer.restart, Timer.alarm, h]

namespace TimerQueue

variable {q q' : TimerQueue} {batch : List Addr} {p : Addr} {t : Timer} {g : Agenda}
  {timerId : TimerId}

/-! ## The agenda of a timer queue -/

/-- The addresses in `timers_`. -/
def scheduled (q : TimerQueue) : Set Addr :=
  { p | ∃ e ∈ q.timers, e.timer = p }

def numberOf (q : TimerQueue) (timer : Addr) : Nat :=
  ((q.heap timer).map Timer.sequence).getD 0

/-- `f` has, by number, the timers at the addresses in `S`. -/
def Has (q : TimerQueue) (S : Set Addr) (f : Nat → Option Alarm) : Prop :=
  Views Timer.sequence Timer.alarm q.heap S f

structure RoundOf (q : TimerQueue) (f : Frame) (r : Round) : Prop where
  now : r.now = f.now
  due : q.Has { p | p ∈ f.expired.map Entry.timer } r.due
  rest : r.rest = f.rest.map fun e => q.numberOf e.timer
  cancelled : ∀ p ∈ f.expired.map Entry.timer, ∀ t, q.heap p = some t →
    (t.sequence ∈ r.cancelled ↔ ActiveTimer.mk p t.sequence ∈ q.cancelingTimers)

inductive HasRound (q : TimerQueue) : Option Frame → Option Round → Prop
  | idle : HasRound q none none
  | running {f : Frame} {r : Round} : q.RoundOf f r → HasRound q (some f) (some r)

structure Shows (q : TimerQueue) (g : Agenda) : Prop where
  numCreated : g.numCreated = q.numCreated
  created : q.Has { p | p ∈ q.created } g.created
  pending : q.Has q.scheduled g.pending
  round : q.HasRound q.frame g.round

theorem numberOf_eq (h : q.heap p = some t) : q.numberOf p = t.sequence := by
  simp [numberOf, h]

theorem Consistent.keyed (h : Consistent q batch) : Keyed Timer.sequence q.heap :=
  fun hp hp' hkey => h.sequence_inj _ _ _ _ hp hp' hkey

theorem Consistent.expiration_eq (h : Consistent q batch) {e : Entry} (he : e ∈ q.timers)
    (ht : q.heap e.timer = some t) : t.expiration = e.expiration := by
  obtain ⟨t', ht', hexp, _⟩ := h.timers_live e he
  rw [ht] at ht'
  cases ht'
  exact hexp

/-- A timer at an address of `timers_` is there with its own expiration. -/
theorem Consistent.mem_of_scheduled (h : Consistent q batch) (hp : p ∈ q.scheduled)
    (ht : q.heap p = some t) : Entry.mk t.expiration p ∈ q.timers := by
  obtain ⟨e, he, rfl⟩ := hp
  rwa [h.expiration_eq he ht]

theorem Consistent.not_held_of_scheduled (h : Consistent q batch) (hp : p ∈ q.scheduled) :
    p ∉ q.created ++ batch := by
  obtain ⟨e, he, rfl⟩ := hp
  exact h.held_idle e he

/-- The round depends on the timers of the batch only. -/
theorem HasRound.congr {f : Option Frame} {r : Option Round} (h : q.HasRound f r)
    (hrest : ∀ f' ∈ f, f'.rest <:+ f'.expired)
    (hheap : ∀ f' ∈ f, ∀ p ∈ f'.expired.map Entry.timer, q'.heap p = q.heap p)
    (hcan : q'.cancelingTimers = q.cancelingTimers) : q'.HasRound f r := by
  cases h with
  | idle => exact HasRound.idle
  | running hround =>
      rename_i f r
      have hsame := hheap f rfl
      refine HasRound.running ⟨hround.now, Views.congr hround.due (fun _ => Iff.rfl) hsame, ?_, ?_⟩
      · rw [hround.rest]
        refine List.map_congr_left fun e he => ?_
        rw [numberOf, numberOf, hsame _ (List.mem_map_of_mem ((hrest f rfl).mem he))]
      · intro p hp t ht
        rw [hcan]
        exact hround.cancelled p hp t (by rwa [← hsame p hp])

/-- What is not in `timers_` is seen as before when its timers are as before. -/
theorem Shows.held (h : q.Shows g) (hinv : Inv q)
    (hheap : ∀ r ∈ q.created ++ batchOf q, q'.heap r = q.heap r)
    (hcan : q'.cancelingTimers = q.cancelingTimers) :
    q'.Has { p | p ∈ q.created } g.created ∧ q'.HasRound q.frame g.round := by
  constructor
  · exact Views.congr h.created (fun _ => Iff.rfl) fun r hr => hheap r (List.mem_append_left _ hr)
  · refine h.round.congr hinv.rest (fun f hf r hr => hheap r (List.mem_append_right _ ?_)) hcan
    rw [batchOf, hf]
    exact hr

/-! ## What the actions are to the user -/

def userActs (q : TimerQueue) : Act → List Agenda.Act
  | .newTimer _ when_ interval repeat_ => [.create ⟨when_, interval, repeat_⟩]
  | .addTimerInLoop timer => [.add (q.numberOf timer)]
  | .cancelInLoop timerId => [.cancel timerId.sequence]
  | .fire => []
  | .handleReadBegin now => [.start now ((q.expiredAt now).map fun e => q.numberOf e.timer)]
  | .handleReadRun =>
      (callbackOf q .handleReadRun).toList.map fun e => .run (q.numberOf e.timer)
  | .handleReadEnd => [.finish]

/-- No timer but the one at its address has its number, as for the ids that `addTimer` returns. -/
def Genuine (q : TimerQueue) (timerId : TimerId) : Prop :=
  ∀ p t, q.heap p = some t → t.sequence = timerId.sequence → p = timerId.timer

theorem Inv.genuine (h : Inv q) (ht : q.heap p = some t) : q.Genuine ⟨p, t.sequence⟩ :=
  fun _ _ hu hseq => h.consistent.sequence_inj _ _ _ _ hu ht hseq

def GenuineIds (q : TimerQueue) : Act → Prop
  | .cancelInLoop timerId => q.Genuine timerId
  | _ => True

/-! ## One action -/

theorem HasRound.exists_round {f : Frame} {r : Option Round} (h : q.HasRound (some f) r) :
    ∃ r', r = some r' ∧ q.RoundOf f r' := by
  cases h with
  | running hround => exact ⟨_, rfl, hround⟩

theorem HasRound.eq_none {r : Option Round} (h : q.HasRound none r) : r = none := by
  cases h
  rfl

theorem mem_scheduled_insert {timers : OrdSet Entry} {when_ : Int}
    (h : timers = q.timers.insert ⟨when_, p⟩) (r : Addr) :
    (∃ e ∈ timers, e.timer = r) ↔ r = p ∨ r ∈ q.scheduled := by
  subst h
  constructor
  · rintro ⟨e, he, rfl⟩
    rcases OrdSet.mem_insert.1 he with rfl | he
    · exact Or.inl rfl
    · exact Or.inr ⟨e, he, rfl⟩
  · rintro (rfl | ⟨e, he, rfl⟩)
    · exact ⟨_, OrdSet.mem_insert.2 (Or.inl rfl), rfl⟩
    · exact ⟨e, OrdSet.mem_insert.2 (Or.inr he), rfl⟩

theorem Shows.newTimer (h : q.Shows g) (hinv : Inv q) (hnone : q.heap p = none)
    {when_ interval : Int} {repeat_ : Bool} (hinv' : Inv (q.newTimer p when_ interval repeat_)) :
    (q.newTimer p when_ interval repeat_).Shows (g.next (.create ⟨when_, interval, repeat_⟩)) := by
  have hsame : ∀ r t, q.heap r = some t →
      (q.newTimer p when_ interval repeat_).heap r = q.heap r := by
    intro r t ht
    have hr : r ≠ p := by
      rintro rfl
      rw [hnone] at ht
      cases ht
    simp [TimerQueue.newTimer, hr]
  have hheld : ∀ r ∈ q.created ++ batchOf q,
      (q.newTimer p when_ interval repeat_).heap r = q.heap r := by
    intro r hr
    obtain ⟨t, ht⟩ := hinv.consistent.held_live r hr
    exact hsame r t ht
  obtain ⟨hold, hround⟩ := h.held hinv hheld rfl
  refine ⟨?_, ?_, ?_, hround⟩
  · rw [Agenda.next, h.numCreated]
    rfl
  · have hself : (q.newTimer p when_ interval repeat_).heap p =
        some ⟨when_, interval, repeat_, q.numCreated + 1⟩ := by
      simp [TimerQueue.newTimer]
    rw [Agenda.next, h.numCreated]
    exact Views.insert hold hinv'.consistent.keyed hself fun r => List.mem_cons
  · refine Views.congr h.pending (fun _ => Iff.rfl) ?_
    rintro r ⟨e, he, rfl⟩
    obtain ⟨t, ht, _⟩ := hinv.consistent.timers_live e he
    exact hsame _ t ht

theorem Shows.added (h : q.Shows g) (hinv : Inv q) (hp : p ∈ q.created)
    (ht : q.heap p = some t) : (q.added p t).Shows (g.next (.add t.sequence)) := by
  have hget : g.created t.sequence = some t.alarm := Views.get h.created hp ht
  have hheap := added_heap q p t
  have hnodup := (List.nodup_append.1 hinv.consistent.held_nodup).1
  refine ⟨?_, ?_, ?_, ?_⟩
  · rw [added_numCreated]
    exact h.numCreated
  · unfold Has
    rw [hheap]
    refine Views.erase h.created hinv.consistent.keyed ht fun r => ?_
    change r ∈ (q.added p t).created ↔ r ∈ q.created ∧ r ≠ p
    rw [added_created, hnodup.mem_erase_iff, and_comm]
  · unfold Has
    rw [hheap, Agenda.next, hget]
    exact Views.insert h.pending hinv.consistent.keyed ht <|
      mem_scheduled_insert (timers_added q p t)
  · rw [added_frame]
    exact h.round.congr hinv.rest (fun _ _ r _ => by rw [hheap]) (added_canceling q p t)

/-- A genuine id that is not active has nothing on the agenda. -/
theorem Shows.pending_eq_none (h : q.Shows g) (hcons : Consistent q batch)
    (hgenuine : q.Genuine timerId)
    (hnot : ActiveTimer.mk timerId.timer timerId.sequence ∉ q.activeTimers) :
    g.pending timerId.sequence = none := by
  cases hpending : g.pending timerId.sequence with
  | none => rfl
  | some a =>
      obtain ⟨p, hp, t, ht, hseq, _⟩ := (h.pending _ _).1 hpending
      obtain rfl := hgenuine p t ht hseq
      obtain ⟨t', ht', _, hact⟩ := hcons.timers_live _ (hcons.mem_of_scheduled hp ht)
      have heq : q.heap timerId.timer = some t' := ht'
      rw [ht] at heq
      cases heq
      rw [hseq] at hact
      exact absurd hact hnot

theorem HasRound.record {f : Option Frame} {r : Option Round} (h : q.HasRound f r)
    (hgenuine : q.Genuine timerId) :
    HasRound { q with cancelingTimers :=
        q.cancelingTimers.insert ⟨timerId.timer, timerId.sequence⟩ } f
      (r.map fun r => { r with cancelled := timerId.sequence :: r.cancelled }) := by
  cases h with
  | idle => exact HasRound.idle
  | running hround =>
      refine HasRound.running ⟨hround.now, hround.due, hround.rest, fun p hp t ht => ?_⟩
      rw [List.mem_cons, OrdSet.mem_insert, hround.cancelled p hp t ht]
      refine or_congr_left ⟨fun hseq => ?_, congrArg ActiveTimer.sequence⟩
      rw [hgenuine p t ht hseq, hseq]

theorem Shows.cancel (h : q.Shows g) (hinv : Inv q) (hgenuine : q.Genuine timerId)
    (hspec : CancelSpec q timerId q') : q'.Shows (g.next (.cancel timerId.sequence)) := by
  cases hspec with
  | found t ht hseq htim =>
      have hp : timerId.timer ∈ q.scheduled := ⟨_, htim, rfl⟩
      have hget : g.pending t.sequence = some t.alarm := Views.get h.pending hp ht
      have hother : ∀ r, r ≠ timerId.timer → (q.cancelled timerId.timer t).heap r = q.heap r := by
        intro r hr
        simp [cancelled, hr]
      have hheld : ∀ r ∈ q.created ++ batchOf q,
          (q.cancelled timerId.timer t).heap r = q.heap r := by
        intro r hr
        refine hother r ?_
        rintro rfl
        exact hinv.consistent.not_held_of_scheduled hp hr
      rw [← hseq, Agenda.next, hget, Option.isSome_some, if_pos rfl]
      obtain ⟨hcreated, hround⟩ := h.held hinv hheld rfl
      refine ⟨h.numCreated, hcreated, ?_, hround⟩
      · have herase : q.Has { r | r ∈ q.scheduled ∧ r ≠ timerId.timer }
            (Function.update g.pending t.sequence none) :=
          Views.erase h.pending hinv.consistent.keyed ht fun _ => Iff.rfl
        refine Views.congr herase (fun r => ?_) fun r hr => hother r hr.2
        constructor
        · rintro ⟨e, he, rfl⟩
          obtain ⟨hmem, hne⟩ := OrdSet.mem_erase.1 he
          exact ⟨⟨e, hmem, rfl⟩, fun heq => hne (hinv.consistent.entry_inj hmem htim heq)⟩
        · rintro ⟨⟨e, he, rfl⟩, hne⟩
          exact ⟨e, OrdSet.mem_erase.2 ⟨he, fun heq => hne (congrArg Entry.timer heq)⟩, rfl⟩
  | recorded hnot _ =>
      have hnone := h.pending_eq_none hinv.consistent hgenuine hnot
      rw [Agenda.next, hnone, Option.isSome_none, if_neg Bool.false_ne_true]
      exact ⟨h.numCreated, h.created, h.pending, h.round.record hgenuine⟩
  | ignored hnot hcalling =>
      have hnone := h.pending_eq_none hinv.consistent hgenuine hnot
      have hframe : q.frame = none := by
        have hsome := hinv.calling
        rw [hcalling] at hsome
        exact Option.isSome_eq_false_iff.1 hsome.symm |> Option.isNone_iff_eq_none.1
      have hround := h.round
      rw [hframe] at hround
      have hempty := hround.eq_none
      rw [Agenda.next, hnone, Option.isSome_none, if_neg Bool.false_ne_true, hempty]
      refine ⟨h.numCreated, h.created, h.pending, ?_⟩
      rw [hframe]
      exact HasRound.idle

/-! ## A round -/

/-- An entry of `timers_` is on the agenda under its number. -/
theorem Shows.alarm_of_mem (h : q.Shows g) (hcons : Consistent q batch) {e : Entry}
    (he : e ∈ q.timers) :
    ∃ t, q.heap e.timer = some t ∧ q.numberOf e.timer = t.sequence ∧
      g.pending t.sequence = some t.alarm ∧ t.expiration = e.expiration := by
  obtain ⟨t, ht, hexp, _⟩ := hcons.timers_live e he
  exact ⟨t, ht, numberOf_eq ht, Views.get h.pending ⟨e, he, rfl⟩ ht, hexp⟩

theorem Shows.dueInOrder (h : q.Shows g) (hcons : Consistent q batch) (now : Int) :
    g.DueInOrder now ((q.expiredAt now).map fun e => q.numberOf e.timer) := by
  refine ⟨?_, ?_, ?_⟩
  · refine List.Nodup.map_on ?_ (q.timers.below (sentry now)).nodup
    intro e he e' he' hnum
    have hmem := (hcons.mem_expiredAt.1 he).1
    have hmem' := (hcons.mem_expiredAt.1 he').1
    obtain ⟨t, ht, hseq, _⟩ := h.alarm_of_mem hcons hmem
    obtain ⟨t', ht', hseq', _⟩ := h.alarm_of_mem hcons hmem'
    have htimer := hcons.sequence_inj _ _ t t' ht ht' (by rw [← hseq, ← hseq', hnum])
    exact hcons.entry_inj hmem hmem' htimer
  · intro n
    rw [List.mem_map]
    constructor
    · rintro ⟨e, he, rfl⟩
      obtain ⟨hmem, hle⟩ := hcons.mem_expiredAt.1 he
      obtain ⟨t, _, hseq, hget, hexp⟩ := h.alarm_of_mem hcons hmem
      exact ⟨t.alarm, by rw [hseq, hget]; rfl, by rw [← hexp] at hle; exact hle⟩
    · rintro ⟨a, ha, hle⟩
      obtain ⟨p, hp, t, ht, rfl, rfl⟩ := (h.pending n a).1 ha
      exact ⟨_, hcons.mem_expiredAt.2 ⟨hcons.mem_of_scheduled hp ht, hle⟩, numberOf_eq ht⟩
  · rw [List.pairwise_map]
    refine (q.timers.below (sentry now)).increasing.imp_of_mem ?_
    intro e e' he he' hlt a ha b hb
    obtain ⟨t, _, hseq, hget, hexp⟩ := h.alarm_of_mem hcons (hcons.mem_expiredAt.1 he).1
    obtain ⟨t', _, hseq', hget', hexp'⟩ := h.alarm_of_mem hcons (hcons.mem_expiredAt.1 he').1
    rw [hseq, hget] at ha
    rw [hseq', hget'] at hb
    cases ha
    cases hb
    have hle := Entry.expiration_le_of_le (le_of_lt hlt)
    rw [← hexp, ← hexp'] at hle
    exact hle

theorem Shows.begun (h : q.Shows g) (hcons : Consistent q batch) {now : Int}
    (active : OrdSet ActiveTimer) :
    (q.begun now active).Shows
      (g.next (.start now ((q.expiredAt now).map fun e => q.numberOf e.timer))) := by
  refine ⟨h.numCreated, h.created, ?_, HasRound.running ⟨rfl, ?_, rfl, ?_⟩⟩
  · refine Views.filter h.pending _ fun {p t} ht => ?_
    rw [decide_eq_true_eq]
    constructor
    · rintro ⟨e, he, rfl⟩
      obtain ⟨hmem, hlt⟩ := hcons.mem_from_sentry.1 he
      have hexp := hcons.expiration_eq hmem ht
      exact ⟨⟨e, hmem, rfl⟩, show now < t.expiration by rw [hexp]; exact hlt⟩
    · rintro ⟨hp, hlt⟩
      exact ⟨_, hcons.mem_from_sentry.2 ⟨hcons.mem_of_scheduled hp ht, hlt⟩, rfl⟩
  · refine Views.filter h.pending _ fun {p t} ht => ?_
    rw [decide_eq_true_eq]
    change p ∈ (q.expiredAt now).map Entry.timer ↔ _
    rw [List.mem_map]
    constructor
    · rintro ⟨e, he, rfl⟩
      obtain ⟨hmem, hle⟩ := hcons.mem_expiredAt.1 he
      have hexp := hcons.expiration_eq hmem ht
      exact ⟨⟨e, hmem, rfl⟩, show t.expiration ≤ now by rw [hexp]; exact hle⟩
    · rintro ⟨hp, hle⟩
      exact ⟨_, hcons.mem_expiredAt.2 ⟨hcons.mem_of_scheduled hp ht, hle⟩, rfl⟩
  · intro p _ t _
    exact iff_of_false List.not_mem_nil (OrdSet.not_mem_empty _)

/-! ## The end of a round -/

theorem RoundOf.again_iff {f : Frame} {r : Round} (h : q.RoundOf f r) (n : Nat) (a : Alarm) :
    r.again n = some a ↔ ∃ it ∈ f.expired, ∃ t, q.heap it.timer = some t ∧ t.sequence = n ∧
      t.repeat_ = true ∧ ActiveTimer.mk it.timer t.sequence ∉ q.cancelingTimers ∧
      (t.restart f.now).alarm = a := by
  unfold Round.again
  rw [Option.map_eq_some_iff]
  constructor
  · rintro ⟨b, hb, rfl⟩
    obtain ⟨hdue, hcond⟩ := Option.filter_eq_some_iff.1 hb
    obtain ⟨p, hp, t, ht, rfl, rfl⟩ := (h.due n b).1 hdue
    obtain ⟨it, hit, rfl⟩ := List.mem_map.1 hp
    rw [Bool.and_eq_true, Bool.not_eq_true', decide_eq_false_iff_not,
      h.cancelled _ hp t ht] at hcond
    exact ⟨it, hit, t, ht, rfl, hcond.1, hcond.2, by rw [Timer.restart_alarm hcond.1, h.now]⟩
  · rintro ⟨it, hit, t, ht, rfl, hrep, hnot, rfl⟩
    have hp : it.timer ∈ f.expired.map Entry.timer := List.mem_map_of_mem hit
    refine ⟨t.alarm, Option.filter_eq_some_iff.2 ⟨Views.get h.due hp ht, ?_⟩, ?_⟩
    · rw [Bool.and_eq_true, Bool.not_eq_true', decide_eq_false_iff_not, h.cancelled _ hp t ht]
      exact ⟨hrep, hnot⟩
    · rw [Timer.restart_alarm hrep, h.now]

/-- What `timers_` has under a number, or `reset` has still to put back. -/
def WillHave (q : TimerQueue) (now : Int) (expired : List Entry) (n : Nat) (a : Alarm) : Prop :=
  (∃ p ∈ q.scheduled, ∃ t, q.heap p = some t ∧ t.sequence = n ∧ t.alarm = a) ∨
    ∃ it ∈ expired, ∃ t, q.heap it.timer = some t ∧ t.sequence = n ∧ t.repeat_ = true ∧
      ActiveTimer.mk it.timer t.sequence ∉ q.cancelingTimers ∧ (t.restart now).alarm = a

theorem willHave_rearmed {now next : Int} {expired : List Entry} {n : Nat} {a : Alarm} :
    WillHave (q.rearmed next) now expired n a ↔ WillHave q now expired n a := by
  unfold WillHave scheduled
  simp only [rearmed_heap, rearmed_timers, rearmed_cancelingTimers]

/-- One iteration puts its own timer back, or knows that it is not to come back. -/
theorem ResetSpec.willHave {now : Int} {it : Entry} {expired : List Entry}
    (h : Consistent q (it.timer :: expired.map Entry.timer)) (hspec : ResetSpec q now it q')
    (n : Nat) (a : Alarm) :
    WillHave q' now expired n a ↔ WillHave q now (it :: expired) n a := by
  have hhead : it.timer ∉ q.scheduled := fun hp =>
    h.not_held_of_scheduled hp (List.mem_append_right _ List.mem_cons_self)
  have hne : ∀ r ∈ q.scheduled, r ≠ it.timer := fun r hr heq => hhead (heq ▸ hr)
  have htail := h.timer_ne_head
  have hother : ∀ r, r ≠ it.timer → q'.heap r = q.heap r := fun r hr => hspec.heap_of_ne hr
  cases hspec with
  | restarted t ht hrep hcan =>
      have hself : (q.restarted now it.timer t).heap it.timer = some (t.restart now) := by
        simp [TimerQueue.restarted, TimerQueue.inserted]
      have hmem : ∀ r, r ∈ (q.restarted now it.timer t).scheduled ↔
          r = it.timer ∨ r ∈ q.scheduled := mem_scheduled_insert rfl
      constructor
      · rintro (⟨r, hr, u, hu, hrest⟩ | ⟨it', hit', u, hu, hrest⟩)
        · rcases (hmem r).1 hr with rfl | hr
          · rw [hself] at hu
            cases hu
            rw [Timer.restart_sequence] at hrest
            exact Or.inr ⟨it, List.mem_cons_self, t, ht, hrest.1, hrep, hcan, hrest.2⟩
          · rw [hother r (hne r hr)] at hu
            exact Or.inl ⟨r, hr, u, hu, hrest⟩
        · rw [hother _ (htail it' hit')] at hu
          exact Or.inr ⟨it', List.mem_cons_of_mem _ hit', u, hu, hrest⟩
      · rintro (⟨r, hr, u, hu, hrest⟩ | ⟨it', hit', u, hu, hseq, hrest⟩)
        · exact Or.inl ⟨r, (hmem r).2 (Or.inr hr), u, by rw [hother r (hne r hr), hu], hrest⟩
        · rcases List.mem_cons.1 hit' with rfl | hit'
          · rw [ht] at hu
            cases hu
            exact Or.inl ⟨_, (hmem _).2 (Or.inl rfl), _, hself,
              by rw [Timer.restart_sequence, hseq], hrest.2.2⟩
          · exact Or.inr ⟨it', hit', u, by rw [hother _ (htail it' hit'), hu], hseq, hrest⟩
  | deleted t ht hstop =>
      constructor
      · rintro (⟨r, hr, u, hu, hrest⟩ | ⟨it', hit', u, hu, hrest⟩)
        · rw [hother r (hne r hr)] at hu
          exact Or.inl ⟨r, hr, u, hu, hrest⟩
        · rw [hother _ (htail it' hit')] at hu
          exact Or.inr ⟨it', List.mem_cons_of_mem _ hit', u, hu, hrest⟩
      · rintro (⟨r, hr, u, hu, hrest⟩ | ⟨it', hit', u, hu, hseq, hrep, hcan, ha⟩)
        · exact Or.inl ⟨r, hr, u, by rw [hother r (hne r hr), hu], hrest⟩
        · rcases List.mem_cons.1 hit' with rfl | hit'
          · -- The deleted timer was one-shot or cancelled.
            rw [ht] at hu
            cases hu
            rcases hstop with hone | hin
            · rw [hrep] at hone
              cases hone
            · exact absurd hin hcan
          · exact Or.inr ⟨it', hit', u, by rw [hother _ (htail it' hit'), hu], hseq, hrep, hcan, ha⟩

/-- `reset` touches the timers of the batch only. -/
theorem resetLoop_others (h : Inv q) {f : Frame} (hframe : q.frame = some f)
    (hloop : resetLoop f.now f.expired invalidTime q.ended = .ok q') :
    q'.frame = none ∧ q'.created = q.created ∧ q'.numCreated = q.numCreated ∧
      ∀ r ∈ q.created, q'.heap r = q.heap r := by
  refine resetLoop_post h hframe hloop
    (fun _ q₁ => q₁.frame = none ∧ q₁.created = q.created ∧ q₁.numCreated = q.numCreated ∧
      ∀ r ∈ q.created, q₁.heap r = q.heap r) ?_ ⟨rfl, rfl, rfl, fun _ _ => rfl⟩
  rintro it expired q₁ q₂ before ⟨hfr, hcr, hnum, hheap⟩ hcons hspec
  have hne : ∀ r ∈ q.created, r ≠ it.timer := by
    rintro r hr rfl
    rw [← hcr] at hr
    exact List.disjoint_of_nodup_append hcons.held_nodup hr List.mem_cons_self
  have hstep : q₂.created = q₁.created ∧ q₂.numCreated = q₁.numCreated := by
    cases hspec <;> exact ⟨rfl, rfl⟩
  have hrearmed : ∀ next, (q₂.rearmed next).created = q₂.created ∧
      (q₂.rearmed next).numCreated = q₂.numCreated := by
    intro next
    unfold rearmed
    split <;> exact ⟨rfl, rfl⟩
  refine ⟨?_, ?_, ?_, ?_⟩
  · rw [rearmed_frame, hspec.frame.1, hfr]
  · rw [(hrearmed _).1, hstep.1, hcr]
  · rw [(hrearmed _).2, hstep.2, hnum]
  · intro r hr
    rw [rearmed_heap, hspec.heap_of_ne (hne r hr), hheap r hr]

theorem Shows.willHave (h : q.Shows g) (hinv : Inv q) {f : Frame} {r : Round}
    (hframe : q.frame = some f) (hround : q.RoundOf f r) (n : Nat) (a : Alarm) :
    (r.again n).or (g.pending n) = some a ↔ WillHave q f.now f.expired n a := by
  have hagain := hround.again_iff n
  rw [Option.or_eq_some_iff]
  constructor
  · rintro (hput | ⟨_, hpending⟩)
    · exact Or.inr ((hagain a).1 hput)
    · exact Or.inl ((h.pending n a).1 hpending)
  · rintro (hpending | hput)
    · refine Or.inr ⟨?_, (h.pending n a).2 hpending⟩
      cases hput : r.again n with
      | none => rfl
      | some b =>
          -- A timer of the batch is not in `timers_`.
          obtain ⟨it, hit, t, ht, hseq, _⟩ := (hagain b).1 hput
          obtain ⟨p, hp, u, hu, huseq, _⟩ := hpending
          obtain rfl := hinv.consistent.sequence_inj p it.timer u t hu ht (huseq.trans hseq.symm)
          refine absurd ?_ (hinv.consistent.not_held_of_scheduled hp)
          rw [batchOf, hframe]
          exact List.mem_append_right _ (List.mem_map_of_mem hit)
    · exact Or.inl ((hagain a).2 hput)

theorem Shows.finish (h : q.Shows g) (hinv : Inv q) {f : Frame} {r : Round}
    (hframe : q.frame = some f) (hg : g.round = some r) (hround : q.RoundOf f r)
    (hloop : resetLoop f.now f.expired invalidTime q.ended = .ok q') :
    q'.Shows (g.next .finish) := by
  obtain ⟨hfr, hcreated, hnum, hheap⟩ := resetLoop_others hinv hframe hloop
  have hdone := resetLoop_post hinv hframe hloop
    (fun expired q₁ => ∀ n a,
      WillHave q₁ f.now expired n a ↔ WillHave q f.now f.expired n a)
    (fun hP hcons hspec n a =>
      willHave_rearmed.trans ((hspec.willHave hcons n a).trans (hP n a)))
    (fun _ _ => Iff.rfl)
  rw [Agenda.next, hg]
  refine ⟨h.numCreated.trans hnum.symm, ?_, fun n a => ?_, ?_⟩
  · rw [hcreated]
    exact Views.congr h.created (fun _ => Iff.rfl) hheap
  · refine (h.willHave hinv hframe hround n a).trans ((hdone n a).symm.trans ?_)
    constructor
    · rintro (hp | ⟨it, hit, _⟩)
      · exact hp
      · cases hit
    · exact Or.inl
  · rw [hfr]
    exact HasRound.idle

/-! ## Runs -/

theorem new_shows : TimerQueue.new.Shows Agenda.new := by
  refine ⟨rfl, fun n a => ?_, fun n a => ?_, HasRound.idle⟩
  · refine iff_of_false (by rintro ⟨⟩) ?_
    rintro ⟨p, hp, _⟩
    cases hp
  · refine iff_of_false (by rintro ⟨⟩) ?_
    rintro ⟨p, ⟨e, he, _⟩, _⟩
    exact OrdSet.not_mem_empty e he

/-- A step of the timer queue is a step of the agenda, or nothing. -/
theorem Shows.step (h : q.Shows g) (hinv : Inv q) {a : Act} (hgenuine : GenuineIds q a)
    (hen : Enabled q a) (hexec : exec q a = .ok q') :
    ∃ g', Agenda.system.Run g (userActs q a) g' ∧ q'.Shows g' := by
  have hinv' : Inv q' := (step_inv hinv ⟨hen, hexec⟩).1
  cases step_cases hinv hen hexec with
  | newTimer p when_ interval repeat_ hnone =>
      exact ⟨_, Agenda.run_one trivial, h.newTimer hinv hnone hinv'⟩
  | addTimerInLoop p t hp ht =>
      have hget : g.created t.sequence = some t.alarm := Views.get h.created hp ht
      rw [userActs, numberOf_eq ht]
      refine ⟨_, Agenda.run_one ?_, h.added hinv hp ht⟩
      rw [Agenda.Enabled, hget]
      rfl
  | cancelInLoop timerId hspec =>
      exact ⟨_, Agenda.run_one trivial, h.cancel hinv hgenuine hspec⟩
  | fire =>
      obtain ⟨timerfd, hfire⟩ := fire_eq q
      rw [hfire]
      exact ⟨g, StepSystem.Run.nil g, h.numCreated, h.created, h.pending,
        h.round.congr hinv.rest (fun _ _ _ _ => rfl) rfl⟩
  | handleReadBegin now active hframe _ =>
      have hround := h.round
      rw [hframe] at hround
      exact ⟨_, Agenda.run_one ⟨hround.eq_none, h.dueInOrder hinv.consistent now⟩,
        h.begun hinv.consistent active⟩
  | handleReadRun hframe =>
      rename_i now expired rest it
      have hround := h.round
      rw [hframe] at hround
      obtain ⟨r, hg, hround⟩ := hround.exists_round
      have hhead : r.rest = q.numberOf it.timer :: rest.map fun e => q.numberOf e.timer :=
        hround.rest
      have hacts : userActs q .handleReadRun = [.run (q.numberOf it.timer)] := by
        simp [userActs, callbackOf, hframe]
      rw [hacts]
      refine ⟨_, Agenda.run_one ⟨r, hg, by rw [hhead]; rfl⟩, h.numCreated, h.created, h.pending, ?_⟩
      rw [Agenda.next, hg]
      exact HasRound.running
        ⟨hround.now, hround.due, congrArg List.tail hhead, hround.cancelled⟩
  | handleReadEnd f hframe hloop =>
      have hround := h.round
      rw [hframe] at hround
      obtain ⟨r, hg, hround⟩ := hround.exists_round
      obtain ⟨f', hf', hnil⟩ := hen
      cases hframe.symm.trans hf'
      refine ⟨_, Agenda.run_one ⟨r, hg, ?_⟩, h.finish hinv hframe hg hround hloop⟩
      rw [hround.rest, hnil]
      rfl

/-- Whatever the addresses of the timers, and however the callbacks add and cancel: a run of the
timer queue is, action by action, a run of an agenda, in which the same callbacks run in the same
order, and the queue ends with what the agenda has. -/
theorem refines_agenda {as : List Act}
    (hrun : (system.restrict GenuineIds).Run TimerQueue.new as q) :
    ∃ g, Agenda.system.Run Agenda.new (StepSystem.translate exec userActs TimerQueue.new as) g ∧
      q.Shows g := by
  rw [system, StepSystem.restrict_ofExec] at hrun
  have hstep : ∀ {s : TimerQueue} {a : Act} {t : TimerQueue} {g : Agenda}, (Inv s ∧ s.Shows g) →
      (GenuineIds s a ∧ Enabled s a) → exec s a = .ok t →
      ∃ g', Agenda.system.Run g (userActs s a) g' ∧ (Inv t ∧ t.Shows g') := by
    rintro s a t g ⟨hinv, hshows⟩ ⟨hgenuine, hen⟩ hexec
    obtain ⟨g', hacts, hshows'⟩ := hshows.step hinv hgenuine hen hexec
    exact ⟨g', hacts, (step_inv hinv ⟨hen, hexec⟩).1, hshows'⟩
  obtain ⟨g, hacts, _, hshows⟩ := StepSystem.Run.translates hstep hrun ⟨new_inv, new_shows⟩
  exact ⟨g, hacts, hshows⟩

/-- Two timers are due together; the first one repeats, and the callback of the second cancels it.
The next timer gets its address. -/
def reusedRun : List Act :=
  [.newTimer 16 10 5 true, .addTimerInLoop 16, .newTimer 32 10 0 false, .addTimerInLoop 32, .fire,
    .handleReadBegin 12, .handleReadRun, .handleReadRun, .cancelInLoop ⟨16, 1⟩, .handleReadEnd,
    .newTimer 16 20 0 false, .addTimerInLoop 16]

theorem refines_agenda_reused :
    ∃ g, Agenda.system.Run Agenda.new
      [.create ⟨10, 5, true⟩, .add 1, .create ⟨10, 0, false⟩, .add 2, .start 12 [1, 2], .run 1,
        .run 2, .cancel 1, .finish, .create ⟨20, 0, false⟩, .add 3] g ∧
      (after reusedRun).Shows g := by
  have hbatch : system.Run TimerQueue.new (reusedRun.take 8) (after (reusedRun.take 8)) :=
    StepSystem.run_of_execAll (by decide) rfl
  have hinv : Inv (after (reusedRun.take 8)) :=
    reachable_inv (hbatch.reachable (StepSystem.Reachable.init rfl))
  have hgenuine : (after (reusedRun.take 8)).Genuine ⟨16, 1⟩ :=
    hinv.genuine (t := ⟨10, 5, true, 1⟩) rfl
  have hrun : (system.restrict GenuineIds).Run TimerQueue.new reusedRun (after reusedRun) := by
    rw [system, StepSystem.restrict_ofExec]
    refine StepSystem.run_of_execAll ?_ rfl
    exact ⟨⟨trivial, by decide⟩, ⟨trivial, by decide⟩, ⟨trivial, by decide⟩, ⟨trivial, by decide⟩,
      ⟨trivial, by decide⟩, ⟨trivial, by decide⟩, ⟨trivial, by decide⟩, ⟨trivial, by decide⟩,
      ⟨hgenuine, by decide⟩, ⟨trivial, by decide⟩, ⟨trivial, by decide⟩, ⟨trivial, by decide⟩,
      trivial⟩
  exact refines_agenda hrun

/-! ## The destructor -/

theorem deleteTimers_ok {timers : List Entry} :
    ∀ {q : TimerQueue}, (timers.map Entry.timer).Nodup →
      (∀ e ∈ timers, ∃ t, q.heap e.timer = some t) →
      ∃ q', deleteTimers timers q = .ok q' ∧
        ∀ p, q'.heap p = if p ∈ timers.map Entry.timer then none else q.heap p := by
  induction timers with
  | nil =>
      intro q _ _
      exact ⟨q, rfl, fun p => by simp⟩
  | cons e timers ih =>
      intro q hnodup hlive
      obtain ⟨hnot, hnodup⟩ := List.nodup_cons.1 hnodup
      obtain ⟨t, ht⟩ := hlive e List.mem_cons_self
      have hrest : ∀ e' ∈ timers, ∃ t, Function.update q.heap e.timer none e'.timer = some t := by
        intro e' he'
        have hne : e'.timer ≠ e.timer := fun heq => hnot (heq ▸ List.mem_map_of_mem he')
        rw [Function.update_of_ne hne]
        exact hlive e' (List.mem_cons_of_mem _ he')
      obtain ⟨q', hq', hheap⟩ :=
        ih (q := { q with heap := Function.update q.heap e.timer none }) hnodup hrest
      refine ⟨q', by rw [deleteTimers, delete_eq ht, ok_bind, hq'], fun p => ?_⟩
      rw [hheap p, List.map_cons]
      by_cases hp : p = e.timer
      · subst hp
        simp
      · simp [hp]

/-- After any run the destructor deletes every timer once, but for those whose `addTimerInLoop` has
not run, which nobody deletes. -/
theorem destroy_leaves_created (hq : system.Reachable q) (hframe : q.frame = none) :
    ∃ q', q.destroy = .ok q' ∧ ∀ p, q'.heap p = if p ∈ q.created then q.heap p else none := by
  obtain ⟨hinv, hacc⟩ := reachable_accounted hq
  have hcons := hinv.consistent
  rw [batchOf, hframe] at hcons hacc
  have hlive : ∀ e ∈ q.timers.elems, ∃ t, q.heap e.timer = some t := by
    intro e he
    obtain ⟨t, ht, _⟩ := hcons.timers_live e he
    exact ⟨t, ht⟩
  obtain ⟨q', hq', hheap⟩ := deleteTimers_ok hcons.timers_nodup hlive
  refine ⟨q', hq', fun p => ?_⟩
  rw [hheap p]
  by_cases hp : p ∈ q.timers.elems.map Entry.timer
  · obtain ⟨e, he, rfl⟩ := List.mem_map.1 hp
    have hheld := hcons.held_idle e he
    rw [List.append_nil] at hheld
    rw [if_pos hp, if_neg hheld]
  · rw [if_neg hp]
    split
    · rfl
    · rename_i hcreated
      -- A live timer that is neither created nor active would be in a batch.
      cases ht : q.heap p with
      | none => rfl
      | some t =>
          rcases hacc p t ht with hmem | hmem | hactive
          · exact absurd hmem hcreated
          · cases hmem
          · obtain ⟨_, _, _, hentry⟩ := hcons.active_live _ hactive
            exact absurd (List.mem_map_of_mem (f := Entry.timer) hentry) hp

/-- The timer that has the address of a deleted one is queued when the destructor runs. -/
theorem destroy_leaves_created_reused :
    ∃ q', (after (reusedRun.take 11)).destroy = .ok q' ∧
      q'.heap 16 = some ⟨20, 0, false, 3⟩ ∧ q'.heap 32 = none := by
  have hrun : system.Run TimerQueue.new (reusedRun.take 11) (after (reusedRun.take 11)) :=
    StepSystem.run_of_execAll (by decide) rfl
  obtain ⟨q', hq', hheap⟩ :=
    destroy_leaves_created (hrun.reachable (StepSystem.Reachable.init rfl)) rfl
  refine ⟨q', hq', ?_, ?_⟩
  · rw [hheap 16]
    rfl
  · rw [hheap 32]
    rfl

end TimerQueue

end Net
end Muduo
