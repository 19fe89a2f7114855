import Muduo.Net.KernelEntries

/-!
# ChannelSteps — what a step of a `World` changes

Every step of a loop and its owners but `discard` is about one address: it changes the owner there
(`Change`), does something to the channel there (`Polled`), and leaves the other owners and
channels alone (`exec_at`).
-/

namespace Muduo
namespace Net
namespace ChannelOwners

open TcpConnection ConnectionUse ConnectionOwnership

/-- The address that a step is about. -/
def Act.subject : Act → Option Addr
  | .newAcceptor a _ => some a
  | .listen a => some a
  | .newConnection a _ _ _ _ _ => some a
  | .handle a _ => some a
  | .callback a _ _ => some a
  | .handled a => some a
  | .hold a => some a
  | .drop a => some a
  | .user a _ _ => some a
  | .push a _ => some a
  | .run a _ => some a
  | .removeConnectionInLoop a => some a
  | .discard => none
  | .dtor a => some a
  | .channelDtor a => some a

/-- What becomes of the owner that a step is about, and of the phase. -/
inductive Change (s : World) (act : Act) (a : Addr) : Option Owned → Phase → Prop where
  | created (owner : Owner) :
      s.owners a = none → Change s act a (some (Owned.new owner)) s.phase
  | used (o o' : Owned) :
      s.owners a = some o → o.dtor = false → o'.dtor = false → o'.owner.kind = o.owner.kind →
      (o'.eventHandling = true → o.eventHandling = true ∨ ∃ revents, act = .handle a revents) →
      Change s act a (some o') s.phase
  | dtor (o : Owned) :
      s.owners a = some o → act = .dtor a → MayDie s o →
      Change s act a (some { o with dtor := true }) (s.phase.afterDtor o.owner.kind)
  | gone (o : Owned) :
      s.owners a = some o → o.dtor = true → o.owner.kind ≠ .timerQueue →
      (o.owner.kind = .eventLoop → s.phase = .emptied) →
      Change s act a none (s.phase.afterChannelDtor o.owner.kind)

/-- The descriptor of the channel that a step creates. -/
def Act.newFd : Act → Option Int
  | .newAcceptor _ fd => some fd
  | .newConnection _ fd _ _ _ _ => some fd
  | _ => none

/-- What a step does to the poller, by the channel at the address that it is about. -/
inductive Polled (b : Build) (act : Act) (a : Addr) (p : EPoller) : EPoller → Prop where
  | same : act.newFd = none → Polled b act a p p
  | created (fd : Int) : act.newFd = some fd → p.objects a = none → Polled b act a p (p.create a fd)
  | used (c : Channel) (ops : List ChannelOp) (p' : EPoller) : act.newFd = none →
      p.objects a = some c → ops.foldlM (channelOp b a) p = .ok p' → Polled b act a p p'
  | gone (c : Channel) : act = .channelDtor a → p.objects a = some c → c.addedToLoop = false →
      Polled b act a p { p with objects := Function.update p.objects a none }

/-- A step is about one address, and leaves the others alone. -/
structure StepAt (b : Build) (s : World) (act : Act) (a : Addr) (s' : World) : Prop where
  subject : act.subject = some a
  owner : ∃ o, Change s act a o s'.phase ∧ s'.owners = Function.update s.owners a o
  polled : Polled b act a s.poller s'.poller

variable {b : Build} {s s' : World} {a : Addr} {act : Act} {p p' : EPoller}

theorem Polled.objects (h : Polled b act a p p') (htracks : Tracks p) :
    ∃ c, p'.objects = Function.update p.objects a c := by
  cases h with
  | same _ => exact ⟨_, (Function.update_eq_self ..).symm⟩
  | created fd _ _ => exact ⟨_, rfl⟩
  | used c ops p' _ hc hops => exact ⟨_, (htracks.channelOps hc hops).2⟩
  | gone c _ _ _ => exact ⟨_, rfl⟩

theorem Polled.kernel (h : Polled b act a p p') (htracks : Tracks p) (hkernel : Kernel p) :
    Kernel p' := by
  cases h with
  | same _ => exact hkernel
  | created fd _ hfree => exact hkernel.create hfree fd
  | used c ops p' _ hc hops => exact hkernel.channelOps htracks hc hops
  | gone c _ hc hadded => exact hkernel.destroy hc hadded

/-- A step that leaves the poller alone. -/
theorem StepAt.of_same {o' : Owned} (hsubject : act.subject = some a) (hfd : act.newFd = none)
    (howner : Change s act a (some o') s.phase) : StepAt b s act a (s.put a o' s.poller) :=
  ⟨hsubject, ⟨some o', howner, rfl⟩, .same hfd⟩

theorem StepAt.of_conn {o : Owned} {m m' : Conn} (hsubject : act.subject = some a)
    (hfd : act.newFd = none) (ho : s.owners a = some o) (hdtor : o.dtor = false)
    (howner : o.owner = .tcpConnection m) : StepAt b s act a (s.putConn a o m' s.poller) :=
  have hkind : o.owner.kind = .tcpConnection := by rw [howner]; rfl
  StepAt.of_same hsubject hfd (.used o _ ho hdtor hdtor hkind.symm Or.inl)

theorem StepAt.of_call {o : Owned} {m m₀ : Conn} {inLoop : Bool} {fn : Fn}
    (hsubject : act.subject = some a) (hfd : act.newFd = none) (ho : s.owners a = some o)
    (hdtor : o.dtor = false) (howner : o.owner = .tcpConnection m₀)
    (hc : s.poller.objects a = some m.conn.channel)
    (hcall : s.call b a o m inLoop fn = .ok s') : StepAt b s act a s' := by
  obtain ⟨_, _, hcall⟩ := exists_ok_of_bind hcall
  obtain ⟨p, hops, hcall⟩ := exists_ok_of_bind hcall
  obtain ⟨m', _, hcall⟩ := exists_ok_of_bind hcall
  cases hcall
  have hkind : o.owner.kind = .tcpConnection := by rw [howner]; rfl
  refine ⟨hsubject, ⟨_, ?_, rfl⟩, .used _ _ _ hfd hc hops⟩
  exact .used o { o with owner := .tcpConnection m' } ho hdtor hdtor hkind.symm Or.inl

theorem exec_at (h : s.Inv) (hact : act ≠ .discard) (hmeets : Meets s act) (hen : Enabled s act)
    (hexec : exec b s act = .ok s') : ∃ a, StepAt b s act a s' := by
  cases act with
  | newAcceptor a fd =>
      cases hexec
      exact ⟨a, rfl, ⟨_, .created _ hen.2, rfl⟩, .created fd rfl (h.free hen.2)⟩
  | newConnection a fd onBase highWaterMark writeComplete highWater =>
      cases hexec
      exact ⟨a, rfl, ⟨_, .created _ hen.2, rfl⟩, .created fd rfl (h.free hen.2)⟩
  | listen a =>
      obtain ⟨o, c, ho, ⟨hdtor, _⟩, hc, _, hexec⟩ := owner_ok h hen.2 hexec
      obtain ⟨p, hop, hexec⟩ := exists_ok_of_bind hexec
      cases hexec
      have hops : [ChannelOp.edit .enableReading].foldlM (channelOp b a) s.poller = .ok p := by
        rw [List.foldlM_cons, hop]
        rfl
      exact ⟨a, rfl, ⟨_, .used o o ho hdtor hdtor rfl Or.inl, rfl⟩, .used c _ _ rfl hc hops⟩
  | handle a revents =>
      obtain ⟨o, c, ho, ⟨hdtor, _⟩, _, _, hexec⟩ := owner_ok h hen.2 hexec
      cases hexec
      refine ⟨a, StepAt.of_same rfl rfl
        (.used o _ ho hdtor hdtor ?_ fun _ => Or.inr ⟨revents, rfl⟩)⟩
      obtain ⟨owner, eventHandling, dtor⟩ := o
      cases owner <;> rfl
  | handled a =>
      obtain ⟨o, c, ho, ⟨hdtor, _⟩, _, _, hexec⟩ := owner_ok h hen hexec
      cases hexec
      exact ⟨a, StepAt.of_same rfl rfl (.used o _ ho hdtor hdtor rfl fun hbusy => by cases hbusy)⟩
  | callback a r w =>
      obtain ⟨o, m, ho, hdtor, howner, hdispatch, hc, _, hexec⟩ := onConn_ok h hen.2 hexec
      cases hlist : m.dispatch with
      | nil => exact absurd hlist hdispatch
      | cons cb rest =>
          rw [hlist] at hexec
          exact ⟨a, StepAt.of_call (m := { m with dispatch := rest }) rfl rfl ho hdtor howner hc
            hexec⟩
  | hold a =>
      obtain ⟨o, m, ho, hdtor, howner, _, _, _, hexec⟩ := onConn_ok h hen.2 hexec
      cases hexec
      exact ⟨a, StepAt.of_conn rfl rfl ho hdtor howner⟩
  | drop a =>
      obtain ⟨o, m, ho, hdtor, howner, _, _, _, hexec⟩ := onConn_ok h hen hexec
      cases hexec
      exact ⟨a, StepAt.of_conn rfl rfl ho hdtor howner⟩
  | user a inLoop call =>
      obtain ⟨o, m, ho, hdtor, howner, _, hc, _, hexec⟩ := onConn_ok h hen.2 hexec
      exact ⟨a, StepAt.of_call rfl rfl ho hdtor howner hc hexec⟩
  | push a i =>
      obtain ⟨o, m, ho, hdtor, howner, hi, _, _, hexec⟩ := onConn_ok h hen.2 hexec
      rw [List.getElem?_eq_getElem hi] at hexec
      cases hexec
      exact ⟨a, StepAt.of_conn rfl rfl ho hdtor howner⟩
  | run a w =>
      obtain ⟨o, m, ho, hdtor, howner, ⟨_, hpending⟩, hc, _, hexec⟩ := onConn_ok h hen.2 hexec
      cases hlist : m.pending with
      | nil => exact absurd hlist hpending
      | cons t rest =>
          rw [hlist] at hexec
          exact ⟨a, StepAt.of_call (m := { m with pending := rest }) rfl rfl ho hdtor howner hc
            hexec⟩
  | removeConnectionInLoop a =>
      obtain ⟨o, m, ho, hdtor, howner, _, _, _, hexec⟩ := onConn_ok h hen.2 hexec
      obtain ⟨m', _, hexec⟩ := exists_ok_of_bind hexec
      cases hexec
      exact ⟨a, StepAt.of_conn rfl rfl ho hdtor howner⟩
  | discard => exact absurd rfl hact
  | dtor a =>
      obtain ⟨o, c, ho, ⟨_, hdie⟩, hc, _, hexec⟩ := owner_ok h hen hexec
      obtain ⟨_, _, hexec⟩ := exists_ok_of_bind hexec
      obtain ⟨p, hops, hexec⟩ := exists_ok_of_bind hexec
      cases hexec
      exact ⟨a, rfl, ⟨_, .dtor o ho rfl hdie, rfl⟩, .used c _ _ rfl hc hops⟩
  | channelDtor a =>
      obtain ⟨o, c, ho, ⟨hdtor, hemptied⟩, hc, hinv, hexec⟩ := owner_ok h hen hexec
      obtain ⟨p, hp, hexec⟩ := exists_ok_of_bind hexec
      cases hexec
      have hadded := (hinv.dead hdtor (hmeets o ho)).2
      simp only [Build.destroy, EPoller.deref_eq hc, ok_bind] at hp
      obtain ⟨_, _, hp⟩ := exists_ok_of_bind hp
      obtain ⟨_, _, hp⟩ := exists_ok_of_bind hp
      obtain ⟨_, _, hp⟩ := exists_ok_of_bind hp
      obtain ⟨_, _, hp⟩ := exists_ok_of_bind hp
      cases hp
      exact ⟨a, rfl, ⟨_, .gone o ho hdtor (hmeets o ho) hemptied, rfl⟩, .gone c rfl hc hadded⟩

/-- A phase that is not over stays what it is, but for the destructors of the loop. -/
theorem Change.running {o' : Option Owned} {phase : Phase} (h : Change s act a o' phase)
    (hloop : ∀ o ∈ s.owners a, act = .dtor a → o.owner.kind ≠ .eventLoop)
    (hrunning : s.phase = .running) : phase = .running := by
  cases h with
  | created _ _ => exact hrunning
  | used _ _ _ _ _ _ _ => exact hrunning
  | dtor o ho hact _ =>
      have hkind := hloop o ho hact
      cases hk : o.owner.kind with
      | eventLoop => exact absurd hk hkind
      | timerQueue | acceptor | tcpConnection => exact hrunning
  | gone o _ _ htimer hemptied =>
      cases hk : o.owner.kind with
      | eventLoop =>
          have := hemptied hk
          rw [hrunning] at this
          cases this
      | timerQueue => exact absurd hk htimer
      | acceptor | tcpConnection => exact hrunning

/-- `~EventLoop` is never undone. -/
theorem Change.was_running {o' : Option Owned} {phase : Phase} (h : Change s act a o' phase)
    (hphase : phase = .running) : s.phase = .running := by
  cases h with
  | created _ _ => exact hphase
  | used _ _ _ _ _ _ _ => exact hphase
  | dtor o _ _ _ =>
      cases hk : o.owner.kind <;> rw [hk] at hphase <;> first | exact hphase | cases hphase
  | gone o _ _ _ _ =>
      cases hk : o.owner.kind <;> rw [hk] at hphase <;> first | exact hphase | cases hphase

end ChannelOwners

end Net
end Muduo
