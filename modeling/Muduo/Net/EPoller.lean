import Mathlib.Logic.Function.Basic
import Muduo.Base.Fault
import Muduo.Foundation.StepSystem
import Muduo.Net.Channel

/-!
# EPoller — registration of channels with epoll

The registration of a channel is kept in three places: the channel's own `index_`, the map
`channels_` of the poller, and the interest set of the kernel.  `exec` embeds the functions of
`Channel` and `EPoller` that touch them, with every `assert` and with the calls of `epoll_ctl`
that fail recorded (`LOG_FATAL` does not end the process here, so the code goes on).

Each function is then shown to do one thing, `put`: place a channel value at its address, with
the map and kernel entries that belong to its index.  `Registered` says that the whole state is
made of such placements, and `views_agree` reads the three views off it.
-/

namespace Muduo
namespace Net

/-! ## The kernel side -/

inductive CtlOp
  | EPOLL_CTL_ADD
  | EPOLL_CTL_DEL
  | EPOLL_CTL_MOD
  deriving DecidableEq, Repr

/-- `struct epoll_event`: the mask and `data.ptr`. -/
structure EpollEvent where
  events : Mask
  ptr : Addr
  deriving DecidableEq, Repr

/-- The interest set of an epoll instance. -/
abbrev InterestSet := Int → Option EpollEvent

/-- `epoll_ctl`: the kernel rejects the `ADD` of a present fd and the `MOD` or `DEL` of an
absent one. -/
def epoll_ctl (interest : InterestSet) (op : CtlOp) (fd : Int) (event : EpollEvent) :
    Option InterestSet :=
  match op, interest fd with
  | .EPOLL_CTL_ADD, none => some (Function.update interest fd (some event))
  | .EPOLL_CTL_ADD, some _ => none
  | .EPOLL_CTL_MOD, some _ => some (Function.update interest fd (some event))
  | .EPOLL_CTL_MOD, none => none
  | .EPOLL_CTL_DEL, some _ => some (Function.update interest fd none)
  | .EPOLL_CTL_DEL, none => none

/-! ## The poller -/

structure EPoller where
  /-- The `Channel` objects that exist. -/
  objects : Addr → Option Channel
  /-- `channels_`. -/
  channels : Int → Option Addr
  interest : InterestSet
  /-- The calls of `epoll_ctl` that returned an error. -/
  ctlErrors : List (CtlOp × Int)

namespace EPoller

def new : EPoller where
  objects := fun _ => none
  channels := fun _ => none
  interest := fun _ => none
  ctlErrors := []

def deref (p : EPoller) (channel : Addr) : Except Fault Channel :=
  match p.objects channel with
  | some c => .ok c
  | none => .error .useAfterFree

/-- Write the fields of a channel object. -/
def store (p : EPoller) (channel : Addr) (c : Channel) : EPoller :=
  { p with objects := Function.update p.objects channel (some c) }

def set_index (p : EPoller) (channel : Addr) (idx : Index) : Except Fault EPoller := do
  let c ← p.deref channel
  pure (p.store channel { c with index := idx })

def update (p : EPoller) (operation : CtlOp) (channel : Addr) : Except Fault EPoller := do
  let c ← p.deref channel
  match epoll_ctl p.interest operation c.fd ⟨c.events, channel⟩ with
  | some interest => pure { p with interest := interest }
  -- `LOG_ERROR` or `LOG_FATAL`, and nothing else
  | none => pure { p with ctlErrors := p.ctlErrors ++ [(operation, c.fd)] }

def updataChannel (p : EPoller) (channel : Addr) : Except Fault EPoller := do
  let c ← p.deref channel
  match c.index with
  | .kNew => do
      assert (p.channels c.fd = none)
      let p := { p with channels := Function.update p.channels c.fd (some channel) }
      let p ← p.set_index channel .kAdded
      p.update .EPOLL_CTL_ADD channel
  | .kDeleted => do
      assert (p.channels c.fd ≠ none)
      assert (p.channels c.fd = some channel)
      let p ← p.set_index channel .kAdded
      p.update .EPOLL_CTL_ADD channel
  | .kAdded => do
      assert (p.channels c.fd ≠ none)
      assert (p.channels c.fd = some channel)
      if c.isNoneEvent then
        let p ← p.update .EPOLL_CTL_DEL channel
        p.set_index channel .kDeleted
      else
        p.update .EPOLL_CTL_MOD channel

def removeChannel (p : EPoller) (channel : Addr) : Except Fault EPoller := do
  let c ← p.deref channel
  assert (p.channels c.fd ≠ none)
  assert (p.channels c.fd = some channel)
  assert (c.isNoneEvent = true)
  assert (c.index = .kAdded ∨ c.index = .kDeleted)
  -- `assert(n == 1)` on the number of erased entries
  assert (p.channels c.fd ≠ none)
  let p := { p with channels := Function.update p.channels c.fd none }
  let p ← if c.index = .kAdded then p.update .EPOLL_CTL_DEL channel else pure p
  p.set_index channel .kNew

def hasChannel (p : EPoller) (channel : Addr) : Except Fault Bool := do
  let c ← p.deref channel
  pure (decide (p.channels c.fd = some channel))

/-! ## Channel operations -/

/-- The constructor of a channel. -/
def create (p : EPoller) (channel : Addr) (fd : Int) : EPoller :=
  p.store channel (Channel.new fd)

/-- `enableReading`, `disableReading`, `enableWriting`, `disableWriting` and `disableAll`: the
edit of `events_`, then `Channel::update`. -/
def setInterest (p : EPoller) (channel : Addr) (op : Interest) : Except Fault EPoller := do
  let c ← p.deref channel
  let p := p.store channel { c with events := op.edit c.events, addedToLoop := true }
  p.updataChannel channel

/-- `Channel::remove`. -/
def remove (p : EPoller) (channel : Addr) : Except Fault EPoller := do
  let c ← p.deref channel
  assert (c.isNoneEvent = true)
  -- `addedToLoop_` goes down before the poller is asked.
  let p := p.store channel { c with addedToLoop := false }
  p.removeChannel channel

/-- The destructor of a channel. -/
def destroy (p : EPoller) (channel : Addr) : Except Fault EPoller := do
  let c ← p.deref channel
  assert (c.addedToLoop = false)
  let known ← p.hasChannel channel
  assert (known = false)
  pure { p with objects := Function.update p.objects channel none }

/-! ## Runs -/

inductive Act
  | create (channel : Addr) (fd : Int)
  | setInterest (channel : Addr) (op : Interest)
  | remove (channel : Addr)
  | destroy (channel : Addr)
  deriving DecidableEq, Repr

def exec (p : EPoller) : Act → Except Fault EPoller
  | .create channel fd => .ok (p.create channel fd)
  | .setInterest channel op => p.setInterest channel op
  | .remove channel => p.remove channel
  | .destroy channel => p.destroy channel

/-- What the users of channels keep to: an object is created at a free address with an fd that
no existing channel has, `remove` is called without interest and after an `update`, and a
channel is destroyed when it is not in the loop. -/
def Enabled (p : EPoller) : Act → Prop
  | .create channel fd =>
      p.objects channel = none ∧ ∀ a c, p.objects a = some c → c.fd ≠ fd
  | .setInterest channel _ => ∃ c, p.objects channel = some c
  | .remove channel =>
      ∃ c, p.objects channel = some c ∧ c.isNoneEvent = true ∧ c.addedToLoop = true
  | .destroy channel => ∃ c, p.objects channel = some c ∧ c.addedToLoop = false

def system : StepSystem EPoller Act :=
  StepSystem.ofExec (· = EPoller.new) Enabled exec

/-! ## Placements -/

/-- The entry of `channels_` that belongs to a channel at an address. -/
def mapEntry (channel : Addr) (c : Channel) : Option Addr :=
  match c.index with
  | .kNew => none
  | _ => some channel

/-- The entry of the interest set that belongs to a channel at an address. -/
def kernelEntry (channel : Addr) (c : Channel) : Option EpollEvent :=
  match c.index with
  | .kAdded => some ⟨c.events, channel⟩
  | _ => none

/-- Place a channel value at its address, together with its two entries. -/
def put (p : EPoller) (channel : Addr) (c : Channel) : EPoller where
  objects := Function.update p.objects channel (some c)
  channels := Function.update p.channels c.fd (mapEntry channel c)
  interest := Function.update p.interest c.fd (kernelEntry channel c)
  ctlErrors := p.ctlErrors

/-- The state is made of the placements of channels with distinct fds, and no `epoll_ctl` has
failed. -/
structure Registered (p : EPoller) : Prop where
  distinct : ∀ {a b c d}, p.objects a = some c → p.objects b = some d → c.fd = d.fd → a = b
  placed : ∀ {a c}, p.objects a = some c →
    p.channels c.fd = mapEntry a c ∧ p.interest c.fd = kernelEntry a c
  added : ∀ {a c}, p.objects a = some c → (c.addedToLoop = false ↔ c.index = .kNew)
  /-- An fd that no channel has is in neither of the two maps. -/
  absent : ∀ {fd}, (∀ a c, p.objects a = some c → c.fd ≠ fd) →
    p.channels fd = none ∧ p.interest fd = none
  accepted : p.ctlErrors = []

variable {p : EPoller} {channel : Addr} {c : Channel}

@[simp] theorem deref_eq (h : p.objects channel = some c) : p.deref channel = .ok c := by
  simp [deref, h]

theorem registered_new : Registered EPoller.new := by
  refine ⟨?_, ?_, ?_, ?_, rfl⟩
  · intro a b c d h
    simp [EPoller.new] at h
  · intro a c h
    simp [EPoller.new] at h
  · intro a c h
    simp [EPoller.new] at h
  · intro fd _
    exact ⟨rfl, rfl⟩

/-- A placement at the address of a channel with the same fd, or at a fresh address with a fresh
fd, keeps the state well formed. -/
theorem Registered.put (h : Registered p) (hadded : c.addedToLoop = false ↔ c.index = .kNew)
    (hown : ∀ a d, p.objects a = some d → (d.fd = c.fd ↔ a = channel)) :
    Registered (p.put channel c) := by
  -- An object of the new state is the placed one, or an old one with another fd.
  have hobj : ∀ {a d}, (p.put channel c).objects a = some d →
      (a = channel ∧ d = c) ∨ (a ≠ channel ∧ p.objects a = some d ∧ d.fd ≠ c.fd) := by
    intro a d hd
    by_cases ha : a = channel
    · subst ha
      refine Or.inl ⟨rfl, ?_⟩
      simpa [EPoller.put, eq_comm] using hd
    · have hd' : p.objects a = some d := by
        simpa [EPoller.put, ha] using hd
      exact Or.inr ⟨ha, hd', fun hfd => ha ((hown a d hd').mp hfd)⟩
  refine ⟨?_, ?_, ?_, ?_, h.accepted⟩
  · intro a b d e hd he hfd
    rcases hobj hd with ⟨rfl, rfl⟩ | ⟨_, hd', hdne⟩
    · rcases hobj he with ⟨rfl, rfl⟩ | ⟨_, _, hene⟩
      · rfl
      · exact absurd hfd.symm hene
    · rcases hobj he with ⟨rfl, rfl⟩ | ⟨_, he', _⟩
      · exact absurd hfd hdne
      · exact h.distinct hd' he' hfd
  · intro a d hd
    rcases hobj hd with ⟨rfl, rfl⟩ | ⟨_, hd', hdne⟩
    · simp [EPoller.put]
    · simpa [EPoller.put, hdne] using h.placed hd'
  · intro a d hd
    rcases hobj hd with ⟨rfl, rfl⟩ | ⟨_, hd', _⟩
    · exact hadded
    · exact h.added hd'
  · -- An fd that no channel has is not the placed one, and no old channel had it.
    intro fd hfd
    have hne : fd ≠ c.fd := by
      intro heq
      exact hfd channel c (by simp [EPoller.put]) heq.symm
    have hold : ∀ a d, p.objects a = some d → d.fd ≠ fd := by
      intro a d hd
      by_cases ha : a = channel
      · subst ha
        intro heq
        exact hne (heq.symm.trans ((hown a d hd).mpr rfl))
      · exact hfd a d (by simpa [EPoller.put, ha] using hd)
    simpa [EPoller.put, hne] using h.absent hold

/-! ## What each operation does -/

theorem create_ok (h : Registered p) {fd : Int} (hfd : ∀ a d, p.objects a = some d → d.fd ≠ fd) :
    p.create channel fd = p.put channel (Channel.new fd) := by
  rcases h.absent hfd with ⟨hmap, hkernel⟩
  have hchan : Function.update p.channels fd none = p.channels := by
    rw [← hmap, Function.update_eq_self]
  have hint : Function.update p.interest fd none = p.interest := by
    rw [← hkernel, Function.update_eq_self]
  simp [create, store, EPoller.put, mapEntry, kernelEntry, Channel.new, hchan, hint]

theorem setInterest_ok (h : Registered p) (hc : p.objects channel = some c) (op : Interest) :
    p.setInterest channel op = .ok (p.put channel (c.edit op)) := by
  rcases h.placed hc with ⟨hmap, hkernel⟩
  cases hidx : c.index with
  | kNew =>
      -- neither in the map nor in the kernel: a new map entry and `ADD`
      simp only [mapEntry, kernelEntry, hidx] at hmap hkernel
      simp [setInterest, updataChannel, update, set_index, store, deref, hc, hidx, hmap, hkernel,
        epoll_ctl, EPoller.put, mapEntry, kernelEntry, Channel.edit]
  | kDeleted =>
      -- in the map but not in the kernel: `ADD` under the old map entry
      simp only [mapEntry, kernelEntry, hidx] at hmap hkernel
      have hchan : Function.update p.channels c.fd (some channel) = p.channels := by
        rw [← hmap, Function.update_eq_self]
      simp [setInterest, updataChannel, update, set_index, store, deref, hc, hidx, hmap, hkernel,
        epoll_ctl, EPoller.put, mapEntry, kernelEntry, Channel.edit, hchan, assert_pos]
  | kAdded =>
      simp only [mapEntry, kernelEntry, hidx] at hmap hkernel
      have hchan : Function.update p.channels c.fd (some channel) = p.channels := by
        rw [← hmap, Function.update_eq_self]
      -- in both: `DEL` when the new mask is empty, else `MOD`
      by_cases hnone : (op.edit c.events).isNoneEvent = true
      · simp [setInterest, updataChannel, update, set_index, store, deref, hc, hidx, hmap, hkernel,
          epoll_ctl, EPoller.put, mapEntry, kernelEntry, Channel.edit, Channel.isNoneEvent, hnone,
          hchan, assert_pos]
      · simp [setInterest, updataChannel, update, store, deref, hc, hidx, hmap, hkernel,
          epoll_ctl, EPoller.put, mapEntry, kernelEntry, Channel.edit, Channel.isNoneEvent, hnone,
          hchan, assert_pos]

theorem remove_ok (h : Registered p) (hc : p.objects channel = some c)
    (hnone : c.isNoneEvent = true) (hadded : c.addedToLoop = true) :
    p.remove channel = .ok (p.put channel c.removed) := by
  rcases h.placed hc with ⟨hmap, hkernel⟩
  have hevents : c.events.isNoneEvent = true := hnone
  cases hidx : c.index with
  | kNew =>
      -- Such a channel has not been updated since its creation or its last `remove`.
      have hnot := (h.added hc).mpr hidx
      rw [hadded] at hnot
      cases hnot
  | kDeleted =>
      simp only [mapEntry, kernelEntry, hidx] at hmap hkernel
      have hint : Function.update p.interest c.fd none = p.interest := by
        rw [← hkernel, Function.update_eq_self]
      simp [remove, removeChannel, set_index, store, deref, hc, hidx, hmap, EPoller.put, mapEntry,
        kernelEntry, Channel.removed, Channel.isNoneEvent, hevents, hint, assert_pos]
  | kAdded =>
      simp only [mapEntry, kernelEntry, hidx] at hmap hkernel
      simp [remove, removeChannel, update, set_index, store, deref, hc, hidx, hmap, hkernel,
        epoll_ctl, EPoller.put, mapEntry, kernelEntry, Channel.removed, Channel.isNoneEvent,
        hevents, assert_pos]

theorem destroy_ok (h : Registered p) (hc : p.objects channel = some c)
    (hadded : c.addedToLoop = false) :
    p.destroy channel = .ok { p with objects := Function.update p.objects channel none } := by
  -- Not in the loop means `kNew`, so `hasChannel` is false.
  have hmap := (h.placed hc).1
  simp only [mapEntry, (h.added hc).mp hadded] at hmap
  simp [destroy, hasChannel, hc, hadded, hmap]

theorem Registered.destroy (h : Registered p) (hc : p.objects channel = some c)
    (hadded : c.addedToLoop = false) :
    Registered { p with objects := Function.update p.objects channel none } := by
  have hobj : ∀ {a d}, Function.update p.objects channel none a = some d →
      p.objects a = some d := by
    intro a d hd
    by_cases ha : a = channel
    · simp [ha] at hd
    · simpa [ha] using hd
  refine ⟨?_, ?_, ?_, ?_, h.accepted⟩
  · intro a b d e hd he
    exact h.distinct (hobj hd) (hobj he)
  · intro a d hd
    exact h.placed (hobj hd)
  · intro a d hd
    exact h.added (hobj hd)
  · intro fd hfd
    by_cases hown : fd = c.fd
    · -- The destroyed channel is not registered, so its fd is in neither map.
      have hnew := (h.added hc).mp hadded
      have hplaced := h.placed hc
      simp only [mapEntry, kernelEntry, hnew] at hplaced
      simpa [hown] using hplaced
    · refine h.absent ?_
      intro a d hd
      by_cases ha : a = channel
      · subst ha
        rw [hc] at hd
        cases hd
        exact Ne.symm hown
      · exact hfd a d (by simpa [ha] using hd)

/-- A channel keeps its fd, so replacing it touches the entries of no other channel. -/
theorem Registered.put_self (h : Registered p) (hc : p.objects channel = some c) {d : Channel}
    (hfd : d.fd = c.fd) (hadded : d.addedToLoop = false ↔ d.index = .kNew) :
    Registered (p.put channel d) := by
  refine h.put hadded ?_
  intro a e he
  constructor
  · intro heq
    exact h.distinct he hc (heq.trans hfd)
  · rintro rfl
    rw [hc] at he
    cases he
    exact hfd.symm

theorem exec_ok (h : Registered p) {a : Act} (hen : Enabled p a) :
    ∃ p', exec p a = .ok p' ∧ Registered p' := by
  cases a with
  | create channel fd =>
      rcases hen with ⟨hfree, hfd⟩
      refine ⟨_, rfl, ?_⟩
      rw [create_ok h hfd]
      refine h.put (by simp [Channel.new]) ?_
      intro a d hd
      refine iff_of_false (hfd a d hd) ?_
      rintro rfl
      rw [hfree] at hd
      cases hd
  | setInterest channel op =>
      rcases hen with ⟨c, hc⟩
      refine ⟨_, setInterest_ok h hc op, h.put_self hc rfl ?_⟩
      simp only [Channel.edit, Bool.true_eq_false, false_iff]
      split <;> simp
  | remove channel =>
      rcases hen with ⟨c, hc, hnone, hadded⟩
      refine ⟨_, remove_ok h hc hnone hadded, h.put_self hc rfl ?_⟩
      simp [Channel.removed]
  | destroy channel =>
      rcases hen with ⟨c, hc, hadded⟩
      exact ⟨_, destroy_ok h hc hadded, h.destroy hc hadded⟩

theorem reachable_registered (hp : system.Reachable p) :
    Registered p ∧ ∀ a, Enabled p a → ∃ p', exec p a = .ok p' := by
  refine StepSystem.ofExec_safe ?_ ?_ hp
  · rintro p rfl
    exact registered_new
  · intro p a h hen
    exact exec_ok h hen

/-! ## The three views -/

/-- The index of an existing channel, the entry of `channels_` and the entry of the kernel
determine each other. -/
def ViewsAgree (p : EPoller) : Prop :=
  ∀ channel c, p.objects channel = some c →
    (c.index = .kNew ↔ p.channels c.fd = none ∧ p.interest c.fd = none) ∧
    (c.index = .kAdded ↔
      p.channels c.fd = some channel ∧ p.interest c.fd = some ⟨c.events, channel⟩) ∧
    (c.index = .kDeleted ↔ p.channels c.fd = some channel ∧ p.interest c.fd = none)

theorem Registered.viewsAgree (h : Registered p) : ViewsAgree p := by
  intro channel c hc
  rcases h.placed hc with ⟨hmap, hkernel⟩
  cases hidx : c.index with
  | kNew => simp [hmap, hkernel, mapEntry, kernelEntry, hidx]
  | kAdded => simp [hmap, hkernel, mapEntry, kernelEntry, hidx]
  | kDeleted => simp [hmap, hkernel, mapEntry, kernelEntry, hidx]

/-- In every reachable state the three views agree, no `epoll_ctl` has failed, and no operation
that the users of channels may call fails an `assert`. -/
theorem views_agree (hp : system.Reachable p) :
    ViewsAgree p ∧ p.ctlErrors = [] ∧ ∀ a, Enabled p a → ∃ p', exec p a = .ok p' := by
  rcases reachable_registered hp with ⟨h, hsafe⟩
  exact ⟨h.viewsAgree, h.accepted, hsafe⟩

/-- A channel is registered, edited, dropped from the kernel, added again, removed and destroyed;
a new channel then takes over its fd. -/
def reuseRun : List Act :=
  [.create 16 5, .setInterest 16 .enableReading, .setInterest 16 .enableWriting,
    .setInterest 16 .disableAll, .setInterest 16 .enableReading, .setInterest 16 .disableAll,
    .remove 16, .destroy 16, .create 32 5, .setInterest 32 .enableReading]

/-- The state that `reuseRun` ends in. -/
def reuseState : EPoller :=
  (StepSystem.execAll exec EPoller.new reuseRun).toOption.getD EPoller.new

theorem views_agree_reuse :
    system.Reachable reuseState ∧ (ViewsAgree reuseState ∧ reuseState.ctlErrors = [] ∧
      ∀ a, Enabled reuseState a → ∃ p', exec reuseState a = .ok p') := by
  have henabled : StepSystem.EnabledAlong Enabled exec EPoller.new reuseRun := by
    refine And.intro ⟨rfl, ?_⟩ (And.intro ⟨_, rfl⟩ (And.intro ⟨_, rfl⟩ (And.intro ⟨_, rfl⟩
      (And.intro ⟨_, rfl⟩ (And.intro ⟨_, rfl⟩ (And.intro ⟨_, rfl, rfl, rfl⟩
      (And.intro ⟨_, rfl, rfl⟩ (And.intro ⟨rfl, ?_⟩ (And.intro ⟨_, rfl⟩ trivial)))))))))
    · intro a c h
      cases h
    · -- The first channel was destroyed, so no object is left.
      intro a c h
      simp [store, create, EPoller.new] at h
  have hrun : system.Run EPoller.new reuseRun reuseState :=
    StepSystem.run_of_execAll henabled rfl
  have hp : system.Reachable reuseState := hrun.reachable (StepSystem.Reachable.init rfl)
  exact ⟨hp, views_agree hp⟩

end EPoller
end Net
end Muduo
