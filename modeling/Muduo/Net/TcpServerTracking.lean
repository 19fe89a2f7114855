import Muduo.Net.TcpServer

/-!
# TcpServerTracking — the server tracks exactly its live connections

Each connection goes through the stages of `Stage`, and its stage determines everything the
server state holds about it: the one functor that waits for it in some queue (`expects`), what
has happened to it so far (`events`) and its entry in `connections_` (`tracked`).  A step acts on
one connection (`Touches`) and leaves the stages of all others.
-/

namespace Muduo
namespace Net

/-- The entry of the log that stands for a functor executed on the thread of `on`. -/
def ServerFunctor.event (on : LoopId) : ServerFunctor → ServerEvent
  | .connectEstablished conn => .established conn on
  | .removeConnectionInLoop conn => .removed conn 1
  | .connectDestroyed conn => .destroyed conn on

namespace TcpServer

variable {s s' s'' : TcpServer} {k : Nat} {c c' c'' : ServerConn}

/-! ## What the server promises -/

/-- The function that a step executes, and the loop on whose thread it does: the functor at the
head of a queue, or the one that `runInLoop` calls at once on the base loop. -/
def executes (s : TcpServer) : Act → Option (LoopId × ServerFunctor)
  | .newConnection _ =>
      if s.getNextLoop.1 = .base then some (.base, .connectEstablished s.conns.length) else none
  | .peerClose k =>
      match s.conns[k]? with
      | some c => if c.loop = .base then some (.base, .removeConnectionInLoop k) else none
      | none => none
  | .runFunctor loop => (s.queues loop).head?.map (fun cb => (loop, cb))

/-- The functor that a step puts at the end of a queue, and whose queue it is. -/
def queued (s : TcpServer) (a : Act) : Option (LoopId × ServerFunctor) :=
  match s.executes a, a with
  | some (_, .removeConnectionInLoop k), _ =>
      s.conns[k]?.map (fun c => (c.loop, .connectDestroyed k))
  | none, .newConnection _ => some (s.getNextLoop.1, .connectEstablished s.conns.length)
  | none, .peerClose k => some (.base, .removeConnectionInLoop k)
  | _, _ => none

/-- What a step does, told by the state before it and the state after it. -/
structure Does (s : TcpServer) (a : Act) : Prop where
  /-- `connections_[connName] = conn` makes an entry where there is none. -/
  insertion : ∀ {sockfd}, a = .newConnection sockfd → s.connections s.nextName = none ∧
    (s.step a).connections = Function.update s.connections s.nextName (some s.conns.length) ∧
    ∃ c : ServerConn, (s.step a).conns[s.conns.length]? = some c ∧ c.name = s.nextName
  /-- `removeConnectionInLoop` runs on the base loop, erases exactly the entry of its connection,
  and hands the connection to its own loop. -/
  removal : ∀ {on k}, s.executes a = some (on, .removeConnectionInLoop k) →
    on = .base ∧ ∃ c : ServerConn, s.conns[k]? = some c ∧ s.connections c.name = some k ∧
      (s.step a).connections = Function.update s.connections c.name none ∧
      s.queued a = some (c.loop, .connectDestroyed k)
  /-- No other step changes `connections_`. -/
  kept : (∀ sockfd, a ≠ .newConnection sockfd) →
    (∀ on k, s.executes a ≠ some (on, .removeConnectionInLoop k)) →
    (s.step a).connections = s.connections
  /-- `connectEstablished` runs on the loop of its connection and registers the channel. -/
  establishment : ∀ {on k}, s.executes a = some (on, .connectEstablished k) →
    ∃ c : ServerConn, (s.step a).conns[k]? = some c ∧ c.loop = on ∧ c.conn.channel.index = .kAdded
  /-- `connectDestroyed` runs on the loop of its connection and leaves the channel removed. -/
  destruction : ∀ {on k}, s.executes a = some (on, .connectDestroyed k) →
    ∃ c : ServerConn, (s.step a).conns[k]? = some c ∧ c.loop = on ∧ c.conn.channel.index = .kNew
  /-- A connection keeps its name and its loop. -/
  objects : ∀ {j : Nat} {c : ServerConn}, s.conns[j]? = some c →
    ∃ c' : ServerConn, (s.step a).conns[j]? = some c' ∧ c'.name = c.name ∧ c'.loop = c.loop
  /-- Queues are FIFO: the executed functor leaves the head of its queue, and the next one comes
  to the end. -/
  queues : ∀ loop, (s.step a).queues loop =
    (if a = .runFunctor loop then (s.queues loop).tail else s.queues loop) ++
      ((s.queued a).toList.filter (fun f => f.1 = loop)).map Prod.snd
  /-- The log tells what has been executed. -/
  logged : (s.step a).log = s.log ++ (s.executes a).toList.map (fun f => f.2.event f.1)

structure Tracks (s : TcpServer) : Prop where
  /-- Connection names are pairwise distinct. -/
  distinct : ∀ {i j : Nat} {ci cj : ServerConn}, s.conns[i]? = some ci → s.conns[j]? = some cj →
    ci.name = cj.name → i = j
  /-- The entry that the next `newConnection` makes does not overwrite one. -/
  noOverwrite : s.conns.length + 1 < 2 ^ 31 → s.connections s.nextName = none
  erasesOne : ∀ {k n : Nat}, .removed k n ∈ s.log → n = 1
  /-- `connections_` holds the accepted connections whose removal has not run. -/
  live : ∀ {name : List Char} {k : Nat}, s.connections name = some k ↔
    ∃ c, s.conns[k]? = some c ∧ c.name = name ∧ ∀ n, .removed k n ∉ s.log
  /-- A connection is established, removed and destroyed in this order, each at most once, and
  its own functions run on its own loop. -/
  life : ∀ {k : Nat} {c : ServerConn}, s.conns[k]? = some c → s.log.filter (fun e => e.conn == k) <+:
    [.established k c.loop, .removed k 1, .destroyed k c.loop]
  /-- Every step that can come next does what `Does` tells. -/
  does : ∀ {a : Act}, Enabled s a → Does s a

/-! ## Stages -/

inductive Stage
  /-- In the map, and not yet handed to its loop. -/
  | created
  /-- `connectEstablished` waits in the queue of its loop. -/
  | accepted
  | established
  /-- The peer has closed, and `removeConnectionInLoop` waits in the queue of the base loop. -/
  | closing
  /-- Out of the map; `connectDestroyed` waits in the queue of its loop. -/
  | removed
  | destroyed
  deriving DecidableEq, Repr

namespace Stage

def expects (k : Nat) (c : ServerConn) : Stage → Option (LoopId × ServerFunctor)
  | .accepted => some (c.loop, .connectEstablished k)
  | .closing => some (.base, .removeConnectionInLoop k)
  | .removed => some (c.loop, .connectDestroyed k)
  | _ => none

def events (k : Nat) (c : ServerConn) : Stage → List ServerEvent
  | .created => []
  | .accepted => []
  | .established => [.established k c.loop]
  | .closing => [.established k c.loop]
  | .removed => [.established k c.loop, .removed k 1]
  | .destroyed => [.established k c.loop, .removed k 1, .destroyed k c.loop]

def tracked : Stage → Bool
  | .removed => false
  | .destroyed => false
  | _ => true

end Stage

/-- Of the functors of connection `k`, the queues hold exactly the expected one. -/
def Holds (s : TcpServer) (k : Nat) (expected : Option (LoopId × ServerFunctor)) : Prop :=
  ∀ loop cb, cb.conn = k →
    (s.queues loop).count cb = if expected = some (loop, cb) then 1 else 0

structure At (s : TcpServer) (k : Nat) (c : ServerConn) (stage : Stage) : Prop where
  queue : Holds s k (stage.expects k c)
  events : s.log.filter (fun e => e.conn == k) = stage.events k c
  entry : s.connections c.name = if stage.tracked then some k else none
  index : c.conn.channel.index = .kAdded ↔ stage = .established

structure Inv (s : TcpServer) : Prop where
  stages : ∀ {k : Nat} {c : ServerConn}, s.conns[k]? = some c → ∃ stage, At s k c stage
  functors : ∀ {loop cb}, cb ∈ s.queues loop → cb.conn < s.conns.length
  logged : ∀ {e}, e ∈ s.log → e.conn < s.conns.length
  names : ∀ {k : Nat} {c : ServerConn}, s.conns[k]? = some c →
    c.name = connName s.name s.listenAddr.toIpPort ((k + 1 : Nat) : Int)
  few : s.conns.length < 2 ^ 31
  nextId : s.conns.length + 1 < 2 ^ 31 → s.nextConnId = ((s.conns.length + 1 : Nat) : Int)
  keys : ∀ {name k}, s.connections name = some k → ∃ c, s.conns[k]? = some c ∧ c.name = name

/-! ## The promises follow from the stages -/

theorem Stage.events_initial (k : Nat) (c : ServerConn) (stage : Stage) :
    stage.events k c <+: [.established k c.loop, .removed k 1, .destroyed k c.loop] := by
  cases stage <;> simp [Stage.events, List.cons_prefix_cons]

theorem Stage.removed_mem_events {n : Nat} (stage : Stage) :
    .removed k n ∈ stage.events k c ↔ stage.tracked = false ∧ n = 1 := by
  cases stage <;> simp [Stage.events, Stage.tracked]

theorem At.removed_mem {stage : Stage} (h : At s k c stage) {n : Nat} :
    .removed k n ∈ s.log ↔ stage.tracked = false ∧ n = 1 := by
  rw [← stage.removed_mem_events (k := k) (c := c), ← h.events]
  simp [ServerEvent.conn]

theorem Inv.distinct (h : Inv s) {i j : Nat} {ci cj : ServerConn} (hi : s.conns[i]? = some ci)
    (hj : s.conns[j]? = some cj) (hname : ci.name = cj.name) : i = j := by
  have hfew := h.few
  have hilt := (List.getElem?_eq_some_iff.mp hi).1
  have hjlt := (List.getElem?_eq_some_iff.mp hj).1
  rw [h.names hi, h.names hj] at hname
  have hsucc := connName_injective s.name s.listenAddr (by omega) (by omega) hname
  omega

/-- The id in the next name is larger than those in the names given so far. -/
theorem Inv.nextName_ne (h : Inv s) (hroom : s.conns.length + 1 < 2 ^ 31)
    (hc : s.conns[k]? = some c) : c.name ≠ s.nextName := by
  intro hname
  have hlt := (List.getElem?_eq_some_iff.mp hc).1
  rw [h.names hc, nextName, h.nextId hroom] at hname
  have hsucc := connName_injective s.name s.listenAddr (by omega) (by omega) hname
  omega

/-- An entry under the next name would be that of an earlier connection. -/
theorem Inv.noOverwrite (h : Inv s) (hroom : s.conns.length + 1 < 2 ^ 31) :
    s.connections s.nextName = none := by
  cases hentry : s.connections s.nextName with
  | none => rfl
  | some k =>
      rcases h.keys hentry with ⟨c, hc, hname⟩
      exact absurd hname (h.nextName_ne hroom hc)

theorem Inv.tracks (h : Inv s) (hdoes : ∀ {a : Act}, Enabled s a → Does s a) : Tracks s := by
  refine ⟨h.distinct, h.noOverwrite, ?_, ?_, ?_, hdoes⟩
  · intro k n hin
    have hlt : k < s.conns.length := h.logged hin
    rcases h.stages (List.getElem?_eq_getElem hlt) with ⟨stage, hat⟩
    exact (hat.removed_mem.mp hin).2
  · intro name k
    constructor
    · intro hentry
      rcases h.keys hentry with ⟨c, hc, rfl⟩
      rcases h.stages hc with ⟨stage, hat⟩
      refine ⟨c, hc, rfl, ?_⟩
      intro n hin
      have hout := hat.entry
      rw [hentry, (hat.removed_mem.mp hin).1] at hout
      cases hout
    · rintro ⟨c, hc, rfl, hnot⟩
      rcases h.stages hc with ⟨stage, hat⟩
      have htracked : stage.tracked = true := by
        by_contra hno
        exact hnot 1 (hat.removed_mem.mpr ⟨by simpa using hno, rfl⟩)
      rw [hat.entry, htracked, if_pos rfl]
  · intro k c hc
    rcases h.stages hc with ⟨stage, hat⟩
    rw [hat.events]
    exact stage.events_initial k c

theorem start_inv (hs : Starts s) : Inv s := by
  rcases hs with ⟨name, listenAddr, loops, rfl⟩
  constructor <;> simp [TcpServer.new]

/-! ## Queues -/

theorem Holds.push (h : Holds s k none) (cb : ServerFunctor) (loop : LoopId) :
    Holds (s.queueInLoop loop cb) k (some (loop, cb)) := by
  intro loop' cb' hcb'
  have hold := h loop' cb' hcb'
  simp only [queueInLoop, Function.update_apply]
  by_cases hloop : loop' = loop
  · subst hloop
    by_cases heq : cb = cb'
    · subst heq
      simpa [List.count_append] using hold
    · simpa [List.count_append, heq] using hold
  · simpa [hloop, Ne.symm hloop] using hold

theorem Holds.push_other {expected : Option (LoopId × ServerFunctor)} (h : Holds s k expected)
    {cb : ServerFunctor} (hcb : cb.conn ≠ k) (loop : LoopId) :
    Holds (s.queueInLoop loop cb) k expected := by
  intro loop' cb' hcb'
  have hne : cb ≠ cb' := by
    rintro rfl
    exact hcb hcb'
  rw [← h loop' cb' hcb']
  simp only [queueInLoop, Function.update_apply]
  split
  case isTrue hloop => simp [List.count_append, hne, hloop]
  case isFalse => rfl

/-- The server after the head of a queue is taken. -/
def popped (s : TcpServer) (loop : LoopId) (rest : List ServerFunctor) : TcpServer :=
  { s with queues := Function.update s.queues loop rest }

theorem Holds.pop {expected : Option (LoopId × ServerFunctor)} (h : Holds s k expected)
    {loop : LoopId} {cb : ServerFunctor} {rest : List ServerFunctor}
    (hqueue : s.queues loop = cb :: rest) (hcb : cb.conn = k) :
    expected = some (loop, cb) ∧ Holds (s.popped loop rest) k none := by
  -- A functor of the connection that is in a queue is the expected one.
  have hexpected : expected = some (loop, cb) := by
    have hcount := h loop cb hcb
    by_contra hne
    rw [hqueue, if_neg hne] at hcount
    simp at hcount
  refine ⟨hexpected, ?_⟩
  subst hexpected
  intro loop' cb' hcb'
  have hold := h loop' cb' hcb'
  simp only [popped, Function.update_apply]
  by_cases hloop : loop' = loop
  · subst hloop
    rw [hqueue, List.count_cons] at hold
    by_cases heq : cb = cb'
    · subst heq
      simpa using hold
    · simpa [heq] using hold
  · simpa [hloop, Ne.symm hloop] using hold

theorem Holds.pop_other {expected : Option (LoopId × ServerFunctor)} (h : Holds s k expected)
    {loop : LoopId} {cb : ServerFunctor} {rest : List ServerFunctor}
    (hqueue : s.queues loop = cb :: rest) (hcb : cb.conn ≠ k) :
    Holds (s.popped loop rest) k expected := by
  intro loop' cb' hcb'
  have hne : cb ≠ cb' := by
    rintro rfl
    exact hcb hcb'
  rw [← h loop' cb' hcb']
  simp only [popped, Function.update_apply]
  split
  case isTrue hloop => rw [hloop, hqueue, List.count_cons_of_ne hne]
  case isFalse => rfl

/-! ## Steps on one connection -/

/-- `s'` differs from `s` in what belongs to connection `k` only. -/
structure Touches (s s' : TcpServer) (k : Nat) (c c' : ServerConn) : Prop where
  server : s'.name = s.name ∧ s'.listenAddr = s.listenAddr ∧ s'.nextConnId = s.nextConnId
  conns : s'.conns = s.conns.set k c'
  same : c'.name = c.name ∧ c'.loop = c.loop
  queues : ∀ {j expected}, j ≠ k → Holds s j expected → Holds s' j expected
  functors : ∀ {loop cb}, cb ∈ s'.queues loop → cb ∈ s.queues loop ∨ cb.conn = k
  log : ∃ events, s'.log = s.log ++ events ∧ ∀ e ∈ events, e.conn = k
  connections : ∀ {name}, name ≠ c.name → s'.connections name = s.connections name

theorem Touches.trans (h₁ : Touches s s' k c c') (h₂ : Touches s' s'' k c' c'') :
    Touches s s'' k c c'' := by
  rcases h₁.log with ⟨events₁, hlog₁, hev₁⟩
  rcases h₂.log with ⟨events₂, hlog₂, hev₂⟩
  refine ⟨?_, ?_, ?_, ?_, ?_, ⟨events₁ ++ events₂, ?_, ?_⟩, ?_⟩
  · exact ⟨h₂.server.1.trans h₁.server.1, h₂.server.2.1.trans h₁.server.2.1,
      h₂.server.2.2.trans h₁.server.2.2⟩
  · rw [h₂.conns, h₁.conns, List.set_set]
  · exact ⟨h₂.same.1.trans h₁.same.1, h₂.same.2.trans h₁.same.2⟩
  · intro j expected hj hold
    exact h₂.queues hj (h₁.queues hj hold)
  · intro loop cb hin
    rcases h₂.functors hin with hin | hcb
    · exact h₁.functors hin
    · exact Or.inr hcb
  · rw [hlog₂, hlog₁, List.append_assoc]
  · intro e he
    rcases List.mem_append.mp he with he | he
    · exact hev₁ e he
    · exact hev₂ e he
  · intro name hname
    rw [h₂.connections (by rwa [h₁.same.1]), h₁.connections hname]

theorem filter_other {log events : List ServerEvent} {j : Nat} (hj : j ≠ k)
    (hevents : ∀ e ∈ events, e.conn = k) :
    (log ++ events).filter (fun e => e.conn == j) = log.filter (fun e => e.conn == j) := by
  have hnone : events.filter (fun e => e.conn == j) = [] := by
    rw [List.filter_eq_nil_iff]
    intro e he hej
    exact hj ((beq_iff_eq.mp hej).symm.trans (hevents e he))
  rw [List.filter_append, hnone, List.append_nil]

theorem Touches.getElem?_self (ht : Touches s s' k c c') (hc : s.conns[k]? = some c) :
    s'.conns[k]? = some c' := by
  rw [ht.conns, List.getElem?_set_self (List.getElem?_eq_some_iff.mp hc).1]

theorem Touches.getElem?_other (ht : Touches s s' k c c') {j : Nat} (hj : j ≠ k) :
    s'.conns[j]? = s.conns[j]? := by
  rw [ht.conns, List.getElem?_set_ne (Ne.symm hj)]

/-- A connection of `s'` is the touched one, or one of `s`. -/
theorem Touches.cases (ht : Touches s s' k c c') (hc : s.conns[k]? = some c) {j : Nat}
    {d : ServerConn} (hd : s'.conns[j]? = some d) :
    (j = k ∧ d = c') ∨ (j ≠ k ∧ s.conns[j]? = some d) := by
  by_cases hj : j = k
  · subst hj
    rw [ht.getElem?_self hc] at hd
    cases hd
    exact Or.inl ⟨rfl, rfl⟩
  · rw [ht.getElem?_other hj] at hd
    exact Or.inr ⟨hj, hd⟩

/-- The stages of the other connections stay: their functors, their events and, because names
differ, their entries are not touched. -/
theorem Inv.touch_other (h : Inv s) (hc : s.conns[k]? = some c) (ht : Touches s s' k c c')
    {j : Nat} {d : ServerConn} (hj : j ≠ k) (hd : s.conns[j]? = some d) :
    ∃ stage, At s' j d stage := by
  rcases h.stages hd with ⟨stage, hat⟩
  rcases ht.log with ⟨events, hlog, hevents⟩
  have hname : d.name ≠ c.name := fun heq => hj (h.distinct hd hc heq)
  refine ⟨stage, ht.queues hj hat.queue, ?_, ?_, hat.index⟩
  · rw [hlog, filter_other hj hevents]
    exact hat.events
  · rw [ht.connections hname]
    exact hat.entry

theorem Inv.touch_keys (h : Inv s) (hc : s.conns[k]? = some c) (ht : Touches s s' k c c')
    {stage : Stage} (hat : At s' k c' stage) {name : List Char} {j : Nat}
    (hentry : s'.connections name = some j) : ∃ d, s'.conns[j]? = some d ∧ d.name = name := by
  by_cases hname : name = c.name
  · -- The touched entry is gone, or points to the touched connection.
    subst hname
    have hvalue := hat.entry
    rw [ht.same.1, hentry] at hvalue
    split at hvalue
    · cases hvalue
      exact ⟨c', ht.getElem?_self hc, ht.same.1⟩
    · cases hvalue
  · rw [ht.connections hname] at hentry
    rcases h.keys hentry with ⟨d, hd, hdname⟩
    have hj : j ≠ k := by
      rintro rfl
      rw [hc] at hd
      cases hd
      exact hname hdname.symm
    exact ⟨d, (ht.getElem?_other hj).trans hd, hdname⟩

/-- A step on one connection keeps the invariant, if it leaves that connection in some stage. -/
theorem Inv.touch (h : Inv s) (hc : s.conns[k]? = some c) (ht : Touches s s' k c c')
    (stage : Stage) (hat : At s' k c' stage) : Inv s' := by
  have hlt : k < s.conns.length := (List.getElem?_eq_some_iff.mp hc).1
  have hlength : s'.conns.length = s.conns.length := by
    rw [ht.conns, List.length_set]
  refine ⟨?_, ?_, ?_, ?_, ?_, ?_, h.touch_keys hc ht hat⟩
  · intro j d hd
    rcases ht.cases hc hd with ⟨rfl, rfl⟩ | ⟨hj, hd⟩
    · exact ⟨stage, hat⟩
    · exact h.touch_other hc ht hj hd
  · intro loop cb hin
    rw [hlength]
    rcases ht.functors hin with hin | hcb
    · exact h.functors hin
    · rwa [hcb]
  · intro e he
    rcases ht.log with ⟨events, hlog, hevents⟩
    rw [hlength]
    rw [hlog] at he
    rcases List.mem_append.mp he with he | he
    · exact h.logged he
    · rwa [hevents e he]
  · intro j d hd
    rw [ht.server.1, ht.server.2.1]
    rcases ht.cases hc hd with ⟨rfl, rfl⟩ | ⟨_, hd⟩
    · rw [ht.same.1]
      exact h.names hc
    · exact h.names hd
  · rw [hlength]
    exact h.few
  · rw [hlength, ht.server.2.2]
    exact h.nextId

/-! ## The parts of a step -/

theorem set_self (hc : s.conns[k]? = some c) : s.conns.set k c = s.conns := by
  rcases List.getElem?_eq_some_iff.mp hc with ⟨hlt, rfl⟩
  exact List.set_getElem_self hlt

theorem touches_pop (hc : s.conns[k]? = some c) {loop : LoopId} {cb : ServerFunctor}
    {rest : List ServerFunctor} (hqueue : s.queues loop = cb :: rest) (hcb : cb.conn = k) :
    Touches s (s.popped loop rest) k c c := by
  refine ⟨⟨rfl, rfl, rfl⟩, (set_self hc).symm, ⟨rfl, rfl⟩, ?_, ?_, ⟨[], by simp [popped], by simp⟩,
    fun _ => rfl⟩
  · intro j expected hj hold
    exact hold.pop_other hqueue (by rw [hcb]; exact Ne.symm hj)
  · intro loop' cb' hin
    refine Or.inl ?_
    simp only [popped, Function.update_apply] at hin
    split at hin
    case isTrue hloop =>
      rw [hloop, hqueue]
      exact List.mem_cons_of_mem _ hin
    case isFalse => exact hin

theorem touches_queueInLoop (hc : s.conns[k]? = some c) (loop : LoopId) (cb : ServerFunctor)
    (hcb : cb.conn = k) : Touches s (s.queueInLoop loop cb) k c c := by
  refine ⟨⟨rfl, rfl, rfl⟩, (set_self hc).symm, ⟨rfl, rfl⟩, ?_, ?_,
    ⟨[], by simp [queueInLoop], by simp⟩, fun _ => rfl⟩
  · intro j expected hj hold
    exact hold.push_other (by rw [hcb]; exact Ne.symm hj) loop
  · intro loop' cb' hin
    simp only [queueInLoop, Function.update_apply] at hin
    split at hin
    case isTrue hloop =>
      rcases List.mem_append.mp hin with hin | hin
      · exact Or.inl (hloop ▸ hin)
      · rw [List.mem_singleton.mp hin]
        exact Or.inr hcb
    case isFalse => exact Or.inl hin

/-- A function of the connection object that is logged as `events`. -/
theorem touches_object (conn : TcpConnection) (events : List ServerEvent)
    (hevents : ∀ e ∈ events, e.conn = k) :
    Touches s { s with conns := s.conns.set k { c with conn := conn }, log := s.log ++ events } k c
      { c with conn := conn } :=
  ⟨⟨rfl, rfl, rfl⟩, rfl, ⟨rfl, rfl⟩, fun _ hold => hold, Or.inl, ⟨events, rfl, hevents⟩,
    fun _ => rfl⟩

theorem touches_erase (hc : s.conns[k]? = some c) (n : Nat) :
    Touches s { s with connections := Function.update s.connections c.name none
                       log := s.log ++ [.removed k n] } k c c := by
  refine ⟨⟨rfl, rfl, rfl⟩, (set_self hc).symm, ⟨rfl, rfl⟩, fun _ hold => hold, Or.inl,
    ⟨_, rfl, by simp [ServerEvent.conn]⟩, ?_⟩
  intro name hname
  exact Function.update_of_ne hname _ _

theorem filter_append_self {log : List ServerEvent} (k : Nat) {e : ServerEvent}
    (he : e.conn = k) :
    (log ++ [e]).filter (fun e => e.conn == k) = log.filter (fun e => e.conn == k) ++ [e] := by
  simp [List.filter_append, he]

/-! ## The functions, from stage to stage -/

theorem index_connectEstablished {conn : TcpConnection} (h : conn.channel.index ≠ .kAdded) :
    conn.connectEstablished.1.channel.index = .kAdded := by
  simp [TcpConnection.connectEstablished, TcpConnection.setInterest, TcpConnection.setState,
    Channel.edit, h]

theorem index_connectDestroyed (conn : TcpConnection) :
    conn.connectDestroyed.1.channel.index = .kNew := by
  simp only [TcpConnection.connectDestroyed]
  split <;> rfl

theorem connectEstablished_at (hidle : Holds s k none)
    (hevents : s.log.filter (fun e => e.conn == k) = []) (hentry : s.connections c.name = some k)
    (hindex : c.conn.channel.index ≠ .kAdded) :
    At (s.connectEstablished c.loop k c) k { c with conn := c.conn.connectEstablished.1 }
      .established := by
  refine ⟨hidle, ?_, hentry, ?_⟩
  · simp only [connectEstablished]
    rw [filter_append_self k rfl, hevents]
    rfl
  · simp [index_connectEstablished hindex]

theorem touches_connectEstablished (on : LoopId) :
    Touches s (s.connectEstablished on k c) k c { c with conn := c.conn.connectEstablished.1 } :=
  touches_object _ _ (by simp [ServerEvent.conn])

theorem connectDestroyed_at (hidle : Holds s k none)
    (hevents : s.log.filter (fun e => e.conn == k) = [.established k c.loop, .removed k 1])
    (hentry : s.connections c.name = none) :
    At (s.connectDestroyed c.loop k c) k { c with conn := c.conn.connectDestroyed.1 }
      .destroyed := by
  refine ⟨hidle, ?_, hentry, by simp [index_connectDestroyed]⟩
  simp only [connectDestroyed]
  rw [filter_append_self k rfl, hevents]
  rfl

theorem touches_connectDestroyed (on : LoopId) :
    Touches s (s.connectDestroyed on k c) k c { c with conn := c.conn.connectDestroyed.1 } :=
  touches_object _ _ (by simp [ServerEvent.conn])

/-- `removeConnectionInLoop` of a tracked connection erases its entry and hands it to its loop. -/
theorem removeConnectionInLoop_at (hidle : Holds s k none)
    (hevents : s.log.filter (fun e => e.conn == k) = [.established k c.loop])
    (hentry : s.connections c.name = some k) (hindex : c.conn.channel.index ≠ .kAdded) :
    At (s.removeConnectionInLoop k c) k c .removed := by
  refine ⟨?_, ?_, ?_, by simp [hindex]⟩
  · exact Holds.push (s := { s with connections := Function.update s.connections c.name none
                                    log := s.log ++ [_] }) hidle _ _
  · simp only [removeConnectionInLoop, queueInLoop, hentry]
    rw [filter_append_self k rfl, hevents]
    rfl
  · simp [removeConnectionInLoop, queueInLoop, Stage.tracked]

theorem touches_removeConnectionInLoop (hc : s.conns[k]? = some c) :
    Touches s (s.removeConnectionInLoop k c) k c c := by
  have herase := touches_erase hc (if (s.connections c.name).isSome then 1 else 0)
  refine herase.trans (touches_queueInLoop ?_ c.loop (.connectDestroyed k) rfl)
  exact hc

/-! ## Every step -/

/-- The functor at the head of a queue is the one that its connection's stage expects. -/
theorem Inv.head (h : Inv s) {loop : LoopId} {cb : ServerFunctor} {rest : List ServerFunctor}
    (hqueue : s.queues loop = cb :: rest) :
    ∃ c stage, s.conns[cb.conn]? = some c ∧ At s cb.conn c stage ∧
      stage.expects cb.conn c = some (loop, cb) ∧ Holds (s.popped loop rest) cb.conn none := by
  have hlt : cb.conn < s.conns.length := h.functors (by rw [hqueue]; exact List.mem_cons_self)
  have hc : s.conns[cb.conn]? = some s.conns[cb.conn] := List.getElem?_eq_getElem hlt
  rcases h.stages hc with ⟨stage, hat⟩
  rcases hat.queue.pop hqueue rfl with ⟨hexpects, hidle⟩
  exact ⟨_, stage, hc, hat, hexpects, hidle⟩

theorem Stage.expects_cases {stage : Stage} {loop : LoopId} {cb : ServerFunctor}
    (h : stage.expects k c = some (loop, cb)) :
    (stage = .accepted ∧ loop = c.loop ∧ cb = .connectEstablished k) ∨
    (stage = .closing ∧ loop = .base ∧ cb = .removeConnectionInLoop k) ∨
    (stage = .removed ∧ loop = c.loop ∧ cb = .connectDestroyed k) := by
  cases stage <;> simp_all [Stage.expects]

theorem step_runFunctor {loop : LoopId} {cb : ServerFunctor} {rest : List ServerFunctor}
    (hqueue : s.queues loop = cb :: rest) :
    s.step (.runFunctor loop) = (s.popped loop rest).call loop cb := by
  rw [step, hqueue]
  rfl

theorem Inv.runFunctor (h : Inv s) {loop : LoopId} {cb : ServerFunctor}
    {rest : List ServerFunctor} (hqueue : s.queues loop = cb :: rest) :
    Inv ((s.popped loop rest).call loop cb) := by
  rcases h.head hqueue with ⟨c, stage, hc, hat, hexpects, hidle⟩
  have hpop := touches_pop hc hqueue rfl
  have hc' : (s.popped loop rest).conns[cb.conn]? = some c := hc
  rw [call, hc']
  rcases Stage.expects_cases hexpects with ⟨rfl, rfl, hcb⟩ | ⟨rfl, rfl, hcb⟩ | ⟨rfl, rfl, hcb⟩
  · generalize cb.conn = k at *
    subst hcb
    refine h.touch hc (hpop.trans (touches_connectEstablished c.loop)) .established ?_
    exact connectEstablished_at hidle hat.events hat.entry (by simp [hat.index])
  · generalize cb.conn = k at *
    subst hcb
    refine h.touch hc (hpop.trans (touches_removeConnectionInLoop hc')) .removed ?_
    exact removeConnectionInLoop_at hidle hat.events hat.entry (by simp [hat.index])
  · generalize cb.conn = k at *
    subst hcb
    refine h.touch hc (hpop.trans (touches_connectDestroyed c.loop)) .destroyed ?_
    exact connectDestroyed_at hidle hat.events hat.entry

theorem index_handleClose {conn : TcpConnection} (h : conn.channel.index = .kAdded) :
    conn.handleClose.1.channel.index = .kDeleted := by
  have hnone : (kNoneEvent).isNoneEvent = true := by decide
  simp [TcpConnection.handleClose, TcpConnection.setInterest, TcpConnection.setState, Channel.edit,
    Interest.edit, h, hnone]

theorem peerClose_eq (s : TcpServer) (k : Nat) (c : ServerConn) :
    s.peerClose k c =
      { s with conns := s.conns.set k { c with conn := c.conn.handleClose.1 } }.removeConnection
        k { c with conn := c.conn.handleClose.1 } := by
  simp [TcpServer.peerClose, TcpConnection.handleRead, TcpConnection.handleClose]

theorem Inv.peerClose (h : Inv s) (hc : s.conns[k]? = some c)
    (hadded : c.conn.channel.index = .kAdded) : Inv (s.peerClose k c) := by
  rcases h.stages hc with ⟨stage, hat⟩
  have hstage : stage = .established := hat.index.mp hadded
  subst hstage
  have hindex : c.conn.handleClose.1.channel.index ≠ .kAdded := by
    simp [index_handleClose hadded]
  have hlt : k < s.conns.length := (List.getElem?_eq_some_iff.mp hc).1
  -- The object is closed first; its name and its loop stay.
  have hclosed := touches_object (s := s) (k := k) (c := c) c.conn.handleClose.1 [] (by simp)
  simp only [List.append_nil] at hclosed
  have hc' : (s.conns.set k { c with conn := c.conn.handleClose.1 })[k]? =
      some { c with conn := c.conn.handleClose.1 } := List.getElem?_set_self hlt
  rw [peerClose_eq, removeConnection]
  split
  case isTrue hbase =>
    -- On the base loop `runInLoop` removes the connection at once.
    refine h.touch hc (hclosed.trans (touches_removeConnectionInLoop hc')) .removed ?_
    exact removeConnectionInLoop_at hat.queue hat.events hat.entry hindex
  case isFalse hio =>
    refine h.touch hc (hclosed.trans
      (touches_queueInLoop hc' .base (.removeConnectionInLoop k) rfl)) .closing ?_
    exact ⟨Holds.push (s := { s with conns := _ }) hat.queue _ _, hat.events, hat.entry,
      by simp [hindex]⟩

/-- The connection that `newConnection` makes. -/
def nextConn (s : TcpServer) (sockfd : Int) : ServerConn :=
  ⟨s.nextName, s.getNextLoop.1, TcpConnection.new sockfd⟩

/-- `newConnection` up to the call of `runInLoop`. -/
def admitted (s : TcpServer) (sockfd : Int) : TcpServer :=
  { s with
    next := s.getNextLoop.2
    nextConnId := incConnId s.nextConnId
    conns := s.conns ++ [s.nextConn sockfd]
    connections := Function.update s.connections s.nextName (some s.conns.length) }

/-- `runInLoop` calls `connectEstablished` at once on the base loop. -/
theorem newConnection_base {sockfd : Int} (h : (s.nextConn sockfd).loop = .base) :
    s.newConnection sockfd =
      (s.admitted sockfd).connectEstablished (s.nextConn sockfd).loop s.conns.length
        (s.nextConn sockfd) := by
  have hloop : s.getNextLoop.1 = .base := h
  rw [h]
  simp only [newConnection]
  rw [if_pos hloop]
  rfl

theorem newConnection_io {sockfd : Int} (h : (s.nextConn sockfd).loop ≠ .base) :
    s.newConnection sockfd =
      (s.admitted sockfd).queueInLoop (s.nextConn sockfd).loop
        (.connectEstablished s.conns.length) := by
  have hloop : s.getNextLoop.1 ≠ .base := h
  simp only [newConnection]
  rw [if_neg hloop]
  rfl

theorem getElem?_admitted_self (sockfd : Int) :
    (s.admitted sockfd).conns[s.conns.length]? = some (s.nextConn sockfd) := by
  simp [admitted]

theorem admitted_at (h : Inv s) (sockfd : Int) :
    At (s.admitted sockfd) s.conns.length (s.nextConn sockfd) .created := by
  refine ⟨?_, ?_, ?_, ?_⟩
  · -- Only the functors of earlier connections are queued.
    intro loop cb hcb
    have hnot : cb ∉ s.queues loop := by
      intro hin
      have hlt := h.functors hin
      omega
    simpa [admitted, Stage.expects] using List.count_eq_zero.mpr hnot
  · have hnone : s.log.filter (fun e => e.conn == s.conns.length) = [] := by
      rw [List.filter_eq_nil_iff]
      intro e he hconn
      have hlt := h.logged he
      have heq := beq_iff_eq.mp hconn
      omega
    simpa [admitted, Stage.events] using hnone
  · simp [admitted, nextConn, Stage.tracked]
  · simp [nextConn, TcpConnection.new, Channel.new]

theorem getElem?_admitted_old {sockfd : Int} (hc : s.conns[k]? = some c) :
    (s.admitted sockfd).conns[k]? = some c := by
  have hlt := (List.getElem?_eq_some_iff.mp hc).1
  simpa [TcpServer.admitted, List.getElem?_append_left hlt] using hc

/-- A connection of the grown server is an old one or the new one. -/
theorem admitted_cases {sockfd : Int} (hc : (s.admitted sockfd).conns[k]? = some c) :
    s.conns[k]? = some c ∨ (k = s.conns.length ∧ c = s.nextConn sockfd) := by
  by_cases hk : k < s.conns.length
  · exact Or.inl (by simpa [TcpServer.admitted, List.getElem?_append_left hk] using hc)
  · have hlt := (List.getElem?_eq_some_iff.mp hc).1
    have heq : k = s.conns.length := by
      simp only [TcpServer.admitted, List.length_append, List.length_singleton] at hlt
      omega
    subst heq
    rw [getElem?_admitted_self] at hc
    cases hc
    exact Or.inr ⟨rfl, rfl⟩

theorem Inv.admitted (h : Inv s) (hroom : s.conns.length + 1 < 2 ^ 31) (sockfd : Int) :
    Inv (s.admitted sockfd) := by
  have hlength : (s.admitted sockfd).conns.length = s.conns.length + 1 := by
    simp [TcpServer.admitted]
  refine ⟨?_, ?_, ?_, ?_, ?_, ?_, ?_⟩
  · intro k c hc
    rcases admitted_cases hc with hc | ⟨rfl, rfl⟩
    · rcases h.stages hc with ⟨stage, hat⟩
      refine ⟨stage, hat.queue, hat.events, ?_, hat.index⟩
      simpa [TcpServer.admitted, Function.update_of_ne (h.nextName_ne hroom hc)] using hat.entry
    · exact ⟨.created, admitted_at h sockfd⟩
  · intro loop cb hin
    have hlt := h.functors hin
    omega
  · intro e he
    have hlt := h.logged he
    omega
  · intro k c hc
    rcases admitted_cases hc with hc | ⟨rfl, rfl⟩
    · exact h.names hc
    · simp only [nextConn, nextName, h.nextId hroom, TcpServer.admitted]
  · omega
  · -- The increment does not overflow while another connection can be accepted.
    intro hmore
    rw [hlength] at hmore ⊢
    have hid := h.nextId hroom
    simp only [TcpServer.admitted, incConnId, hid]
    split <;> omega
  · intro name k hentry
    by_cases hname : name = s.nextName
    · subst hname
      have hk : s.conns.length = k := by
        simpa [TcpServer.admitted] using hentry
      subst hk
      exact ⟨_, getElem?_admitted_self sockfd, rfl⟩
    · have hentry' : s.connections name = some k := by
        simpa [TcpServer.admitted, Function.update_of_ne hname] using hentry
      rcases h.keys hentry' with ⟨c, hc, hcname⟩
      exact ⟨c, getElem?_admitted_old hc, hcname⟩

theorem Inv.newConnection (h : Inv s) (hroom : s.conns.length + 1 < 2 ^ 31) (sockfd : Int) :
    Inv (s.newConnection sockfd) := by
  have hinv := h.admitted hroom sockfd
  have hat := admitted_at h sockfd
  have hc := getElem?_admitted_self (s := s) sockfd
  by_cases hbase : (s.nextConn sockfd).loop = .base
  · -- Without I/O loops the connection is established inside `newConnection`.
    rw [newConnection_base hbase]
    refine hinv.touch hc (touches_connectEstablished _) .established ?_
    exact connectEstablished_at hat.queue hat.events hat.entry (by simp [hat.index])
  · rw [newConnection_io hbase]
    refine hinv.touch hc (touches_queueInLoop hc _ _ rfl) .accepted ?_
    exact ⟨hat.queue.push _ _, hat.events, hat.entry, by simp [hat.index]⟩

theorem step_inv (h : Inv s) {a : Act} (hen : Enabled s a) : Inv (s.step a) := by
  cases a with
  | newConnection sockfd => exact h.newConnection hen sockfd
  | peerClose k =>
      rcases hen with ⟨c, hc, hadded⟩
      rw [step, show s.conns[k]? = some c from hc]
      exact h.peerClose hc hadded
  | runFunctor loop =>
      cases hqueue : s.queues loop with
      | nil => exact absurd hqueue hen
      | cons cb rest =>
          rw [step, hqueue]
          exact h.runFunctor hqueue

/-! ## What every step does -/

theorem Touches.objects (ht : Touches s s' k c c') (hc : s.conns[k]? = some c) {j : Nat}
    {d : ServerConn} (hd : s.conns[j]? = some d) :
    ∃ d' : ServerConn, s'.conns[j]? = some d' ∧ d'.name = d.name ∧ d'.loop = d.loop := by
  by_cases hj : j = k
  · subst hj
    rw [hc] at hd
    cases hd
    exact ⟨c', ht.getElem?_self hc, ht.same⟩
  · exact ⟨d, (ht.getElem?_other hj).trans hd, rfl, rfl⟩

theorem queueInLoop_queues (loop : LoopId) (cb : ServerFunctor) (loop' : LoopId) :
    (s.queueInLoop loop cb).queues loop' = s.queues loop' ++
      ([(loop, cb)].filter (fun f => f.1 = loop')).map Prod.snd := by
  simp only [queueInLoop, Function.update_apply]
  by_cases hloop : loop' = loop
  · simp [hloop]
  · simp [hloop, Ne.symm hloop]

theorem popped_queues {loop : LoopId} {cb : ServerFunctor} {rest : List ServerFunctor}
    (hqueue : s.queues loop = cb :: rest) (loop' : LoopId) :
    (s.popped loop rest).queues loop' =
      if Act.runFunctor loop = .runFunctor loop' then (s.queues loop').tail else s.queues loop' := by
  simp only [popped, Function.update_apply, Act.runFunctor.injEq]
  by_cases hloop : loop' = loop
  · simp [hloop, hqueue]
  · simp [hloop, Ne.symm hloop]

/-- A step that executes `removeConnectionInLoop`, of a server `s₁` on its way that has the map,
the log and the other functors of `s`. -/
theorem does_of_removal {a : Act} {s₁ : TcpServer} (hother : ∀ sockfd, a ≠ .newConnection sockfd)
    (hexec : s.executes a = some (.base, .removeConnectionInLoop k))
    (hstep : s.step a = s₁.removeConnectionInLoop k c')
    (ht : Touches s (s₁.removeConnectionInLoop k c') k c c') (hc : s.conns[k]? = some c)
    (hentry : s.connections c.name = some k) (hconnections : s₁.connections = s.connections)
    (hqueues : ∀ loop, s₁.queues loop =
      if a = .runFunctor loop then (s.queues loop).tail else s.queues loop)
    (hlog : s₁.log = s.log) : Does s a := by
  obtain ⟨hname, hloop⟩ := ht.same
  constructor
  case insertion => exact fun he => absurd he (hother _)
  case removal =>
    intro on j he
    rw [hexec] at he
    cases he
    refine ⟨rfl, c, hc, hentry, ?_, by simp [queued, hexec, hc]⟩
    rw [hstep, ← hname, ← hconnections]
    rfl
  case kept => exact fun _ hnone => absurd hexec (hnone _ _)
  case establishment => simp [hexec]
  case destruction => simp [hexec]
  case objects => exact fun hd => by rw [hstep]; exact ht.objects hc hd
  case queues =>
    intro loop
    simp only [hstep, queued, hexec, hc, ← hqueues, Option.map_some, ← hloop]
    exact queueInLoop_queues _ _ _
  case logged =>
    have hone : s₁.connections c'.name = some k := by rw [hconnections, hname, hentry]
    simp only [hstep, hexec, removeConnectionInLoop, hone, hlog.symm]
    rfl

theorem runFunctor_does (h : Inv s) {loop : LoopId} (hen : Enabled s (.runFunctor loop)) :
    Does s (.runFunctor loop) := by
  cases hqueue : s.queues loop with
  | nil => exact absurd hqueue hen
  | cons cb rest =>
      rcases h.head hqueue with ⟨c, stage, hc, hat, hexpects, hidle⟩
      have hstep := step_runFunctor hqueue
      have hexec : s.executes (.runFunctor loop) = some (loop, cb) := by simp [executes, hqueue]
      have hc' : (s.popped loop rest).conns[cb.conn]? = some c := hc
      have hpop := touches_pop hc hqueue rfl
      have hqueues := popped_queues hqueue
      rw [call, hc'] at hstep
      rcases Stage.expects_cases hexpects with
        ⟨rfl, rfl, hcb⟩ | ⟨rfl, rfl, hcb⟩ | ⟨rfl, rfl, hcb⟩
      · generalize cb.conn = k at *
        subst hcb
        simp only at hstep
        have ht := hpop.trans (touches_connectEstablished c.loop)
        constructor
        case insertion =>
          intro _ he
          cases he
        case removal => simp [hexec]
        case kept => exact fun _ _ => by rw [hstep]; rfl
        case establishment =>
          intro on j he
          rw [hexec] at he
          cases he
          have hself := ht.getElem?_self hc
          rw [← hstep] at hself
          exact ⟨_, hself, rfl, index_connectEstablished (by simp [hat.index])⟩
        case destruction => simp [hexec]
        case objects => exact fun hd => by rw [hstep]; exact ht.objects hc hd
        case queues =>
          intro loop'
          simp only [hstep, queued, hexec, ← hqueues]
          simp [connectEstablished]
        case logged => rw [hstep, hexec]; rfl
      · generalize cb.conn = k at *
        subst hcb
        simp only at hstep
        have ht := hpop.trans (touches_removeConnectionInLoop hc')
        exact does_of_removal (by simp) hexec hstep ht hc hat.entry rfl hqueues rfl
      · generalize cb.conn = k at *
        subst hcb
        simp only at hstep
        have ht := hpop.trans (touches_connectDestroyed c.loop)
        constructor
        case insertion =>
          intro _ he
          cases he
        case removal => simp [hexec]
        case kept => exact fun _ _ => by rw [hstep]; rfl
        case establishment => simp [hexec]
        case destruction =>
          intro on j he
          rw [hexec] at he
          cases he
          have hself := ht.getElem?_self hc
          rw [← hstep] at hself
          exact ⟨_, hself, rfl, index_connectDestroyed _⟩
        case objects => exact fun hd => by rw [hstep]; exact ht.objects hc hd
        case queues =>
          intro loop'
          simp only [hstep, queued, hexec, ← hqueues]
          simp [connectDestroyed]
        case logged => rw [hstep, hexec]; rfl

theorem peerClose_does (h : Inv s) (hen : Enabled s (.peerClose k)) : Does s (.peerClose k) := by
  rcases hen with ⟨c, hc, hadded⟩
  replace hc : s.conns[k]? = some c := hc
  rcases h.stages hc with ⟨stage, hat⟩
  have hstage : stage = .established := hat.index.mp hadded
  subst hstage
  have hlt : k < s.conns.length := (List.getElem?_eq_some_iff.mp hc).1
  have hclosed := touches_object (s := s) (k := k) (c := c) c.conn.handleClose.1 [] (by simp)
  simp only [List.append_nil] at hclosed
  have hc' : (s.conns.set k { c with conn := c.conn.handleClose.1 })[k]? =
      some { c with conn := c.conn.handleClose.1 } := List.getElem?_set_self hlt
  have hstep : s.step (.peerClose k) = s.peerClose k c := by rw [step, hc]
  rw [peerClose_eq, removeConnection] at hstep
  by_cases hbase : c.loop = .base
  · have hexec : s.executes (.peerClose k) = some (.base, .removeConnectionInLoop k) := by
      simp [executes, hc, hbase]
    rw [if_pos hbase] at hstep
    have ht := hclosed.trans (touches_removeConnectionInLoop hc')
    exact does_of_removal (by simp) hexec hstep ht hc hat.entry rfl (fun _ => by simp) rfl
  · have hexec : s.executes (.peerClose k) = none := by simp [executes, hc, hbase]
    rw [if_neg hbase] at hstep
    have ht := hclosed.trans (touches_queueInLoop hc' .base (.removeConnectionInLoop k) rfl)
    constructor
    case insertion =>
      intro _ he
      cases he
    case removal => simp [hexec]
    case kept => exact fun _ _ => by rw [hstep]; rfl
    case establishment => simp [hexec]
    case destruction => simp [hexec]
    case objects => exact fun hd => by rw [hstep]; exact ht.objects hc hd
    case queues =>
      intro loop'
      simp only [hstep, queued, hexec]
      exact queueInLoop_queues _ _ _
    case logged => simp [hstep, hexec, queueInLoop]

theorem newConnection_does (h : Inv s) {sockfd : Int} (hen : Enabled s (.newConnection sockfd)) :
    Does s (.newConnection sockfd) := by
  have hat := admitted_at h sockfd
  have hc := getElem?_admitted_self (s := s) sockfd
  have hstep : s.step (.newConnection sockfd) = s.newConnection sockfd := rfl
  have hnone := h.noOverwrite hen
  by_cases hbase : (s.nextConn sockfd).loop = .base
  · have hloop : s.getNextLoop.1 = .base := hbase
    have hexec : s.executes (.newConnection sockfd) =
        some (.base, .connectEstablished s.conns.length) := by
      simp [executes, hloop]
    rw [newConnection_base hbase] at hstep
    have ht := touches_connectEstablished (s := s.admitted sockfd) (k := s.conns.length)
      (c := s.nextConn sockfd) (s.nextConn sockfd).loop
    have hself := ht.getElem?_self hc
    rw [← hstep] at hself
    constructor
    case insertion => exact fun _ => ⟨hnone, by rw [hstep]; rfl, _, hself, rfl⟩
    case removal => simp [hexec]
    case kept => exact fun hne _ => absurd rfl (hne sockfd)
    case establishment =>
      intro on j he
      rw [hexec] at he
      cases he
      exact ⟨_, hself, hbase, index_connectEstablished (by simp [hat.index])⟩
    case destruction => simp [hexec]
    case objects =>
      intro j d hd
      rw [hstep]
      exact ht.objects hc (getElem?_admitted_old hd)
    case queues =>
      intro loop'
      simp only [hstep, queued, hexec]
      simp [connectEstablished, admitted]
    case logged =>
      rw [hstep, hexec, hbase]
      rfl
  · have hloop : s.getNextLoop.1 ≠ .base := hbase
    have hexec : s.executes (.newConnection sockfd) = none := by simp [executes, hloop]
    rw [newConnection_io hbase] at hstep
    have ht := touches_queueInLoop hc (s.nextConn sockfd).loop
      (.connectEstablished s.conns.length) rfl
    have hself := ht.getElem?_self hc
    rw [← hstep] at hself
    constructor
    case insertion => exact fun _ => ⟨hnone, by rw [hstep]; rfl, _, hself, rfl⟩
    case removal => simp [hexec]
    case kept => exact fun hne _ => absurd rfl (hne sockfd)
    case establishment => simp [hexec]
    case destruction => simp [hexec]
    case objects =>
      intro j d hd
      rw [hstep]
      exact ht.objects hc (getElem?_admitted_old hd)
    case queues =>
      intro loop'
      simp only [hstep, queued, hexec]
      exact queueInLoop_queues _ _ _
    case logged => simp [hstep, hexec, queueInLoop, admitted]

theorem Inv.does (h : Inv s) {a : Act} (hen : Enabled s a) : Does s a := by
  cases a with
  | newConnection sockfd => exact newConnection_does h hen
  | peerClose k => exact peerClose_does h hen
  | runFunctor loop => exact runFunctor_does h hen

/-- For any number of I/O loops and any interleaving, the server tracks exactly its live
connections. -/
theorem tracks_live_connections (hs : system.Reachable s) : Tracks s := by
  have hinv : Inv s := by
    refine hs.invariant start_inv ?_
    rintro s a t h ⟨hen, rfl⟩
    exact step_inv h hen
  exact hinv.tracks hinv.does

/-- Three connections on two I/O loops, in different phases of their lives. -/
def overlappingRun : List Act :=
  [.newConnection 10, .newConnection 11, .runFunctor (.io 1), .runFunctor (.io 0), .peerClose 1,
    .newConnection 12, .runFunctor .base, .peerClose 0, .runFunctor (.io 1)]

def overlappingState : TcpServer :=
  overlappingRun.foldl step (TcpServer.new ['s'] ⟨(127, 0, 0, 1), 80⟩ 2)

theorem tracks_live_connections_overlapping :
    system.Reachable overlappingState ∧ Tracks overlappingState := by
  have hrun : system.Run (TcpServer.new ['s'] ⟨(127, 0, 0, 1), 80⟩ 2) overlappingRun
      overlappingState := StepSystem.run_foldl (by decide +kernel)
  have hs : system.Reachable overlappingState :=
    hrun.reachable (StepSystem.Reachable.init ⟨_, _, _, rfl⟩)
  exact ⟨hs, tracks_live_connections hs⟩

end TcpServer
end Net
end Muduo
