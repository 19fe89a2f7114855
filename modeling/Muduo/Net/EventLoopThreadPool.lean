import Muduo.Foundation.RoundRobin
import Muduo.Net.TcpServerTeardown

/-!
# EventLoopThreadPool — `muduo/net/EventLoopThreadPool.cc` and `TcpServer::start`

The pool belongs to the thread of its base loop, which makes all the calls modelled here.  It is
started once, by the first `TcpServer::start`, and hands its loops out in turn from then on; with
no thread, the base loop has every turn.  A hash code has one loop for good.

`setThreadNum` of the pool takes any `int`, that of the server asserts that it is not negative.
A negative number gives a pool without threads whose base loop is never passed to the
`ThreadInitCallback`.
-/

namespace Muduo
namespace Net

structure EventLoopThreadPool where
  started : Bool
  numThreads : Int
  next : Nat
  loops : List LoopId
  deriving DecidableEq, Repr

namespace EventLoopThreadPool

def new : EventLoopThreadPool where
  started := false
  numThreads := 0
  next := 0
  loops := []

def setThreadNum (p : EventLoopThreadPool) (numThreads : Int) : EventLoopThreadPool :=
  { p with numThreads := numThreads }

/-- The loops of `n` threads; each runs the callback before `startLoop` returns its pointer. -/
def startLoops (n : Int) : List LoopId :=
  (List.range n.toNat).map .io

/-- `start`, with the loops that are passed to the callback `cb` if there is one. -/
def start (p : EventLoopThreadPool) (cb : Bool) :
    Except Fault (EventLoopThreadPool × List LoopId) := do
  assert (p.started = false)
  let loops := p.loops ++ startLoops p.numThreads
  let called := if p.numThreads = 0 then [.base] else startLoops p.numThreads
  return ({ p with started := true, loops := loops }, if cb then called else [])

def getNextLoop (p : EventLoopThreadPool) : Except Fault (LoopId × EventLoopThreadPool) := do
  assert (p.started = true)
  if p.loops = [] then
    return (.base, p)
  else
    match p.loops[p.next]? with
    | some loop => return (loop, { p with next := RoundRobin.advance p.loops.length p.next })
    | none => .error .outOfBounds

def getLoopForHash (p : EventLoopThreadPool) (hashCode : Nat) : Except Fault LoopId :=
  if p.loops = [] then
    .ok .base
  else
    match p.loops[hashCode % p.loops.length]? with
    | some loop => .ok loop
    | none => .error .outOfBounds

def getAllLoops (p : EventLoopThreadPool) : Except Fault (List LoopId) := do
  assert (p.started = true)
  return if p.loops = [] then [.base] else p.loops

/-! ## Turns -/

variable {p : EventLoopThreadPool} {loop : LoopId}

/-- The loops that have turns. -/
def players (p : EventLoopThreadPool) : List LoopId :=
  if p.loops = [] then [.base] else p.loops

theorem players_of_nil (h : p.loops = []) : p.players = [.base] := if_pos h

theorem players_of_ne_nil (h : p.loops ≠ []) : p.players = p.loops := if_neg h

theorem length_players_pos (p : EventLoopThreadPool) : 0 < p.players.length := by
  by_cases h : p.loops = []
  · simp [players_of_nil h]
  · rw [players_of_ne_nil h]
    exact List.length_pos_iff.mpr h

@[simp] theorem getAllLoops_of_started (h : p.started = true) : p.getAllLoops = .ok p.players := by
  rw [getAllLoops, assert_pos h]
  rfl

theorem nodup_startLoops (n : Int) : (startLoops n).Nodup :=
  List.nodup_range.map fun _ _ => LoopId.io.inj

theorem startLoops_eq_nil {n : Int} : startLoops n = [] ↔ n ≤ 0 := by
  simp [startLoops]

theorem nodup_players {n : Int} (h : p.loops = startLoops n) : p.players.Nodup := by
  rw [players, h]
  split
  · exact List.nodup_singleton _
  · exact nodup_startLoops n

/-- The counter names the player whose turn it is, and goes on to the next. -/
theorem getNextLoop_eq (hstarted : p.started = true) {m : Nat}
    (hnext : p.next = m % p.players.length) :
    ∃ loop, p.players[m % p.players.length]? = some loop ∧
      p.getNextLoop = .ok (loop, { p with next := (m + 1) % p.players.length }) := by
  rw [getNextLoop, assert_pos hstarted, ok_bind]
  by_cases hnil : p.loops = []
  · -- The base loop has every turn, and `next_` stays 0.
    rw [players_of_nil hnil, List.length_singleton, Nat.mod_one] at hnext ⊢
    refine ⟨.base, rfl, ?_⟩
    rw [if_pos hnil, Nat.mod_one, ← hnext]
    rfl
  · have hpos := p.length_players_pos
    rw [players_of_ne_nil hnil] at hnext hpos ⊢
    have hlt : m % p.loops.length < p.loops.length := Nat.mod_lt m hpos
    refine ⟨p.loops[m % p.loops.length], List.getElem?_eq_getElem hlt, ?_⟩
    rw [if_neg hnil, hnext, List.getElem?_eq_getElem hlt]
    simp [RoundRobin.advance_mod hpos]

/-- The loop of a hash code. -/
theorem getLoopForHash_eq (p : EventLoopThreadPool) (hashCode : Nat) :
    ∃ loop, p.players[hashCode % p.players.length]? = some loop ∧
      p.getLoopForHash hashCode = .ok loop := by
  rw [getLoopForHash]
  by_cases hnil : p.loops = []
  · exact ⟨.base, by simp [players_of_nil hnil, Nat.mod_one], if_pos hnil⟩
  · have hpos := p.length_players_pos
    rw [players_of_ne_nil hnil] at hpos ⊢
    have hlt : hashCode % p.loops.length < p.loops.length := Nat.mod_lt hashCode hpos
    refine ⟨p.loops[hashCode % p.loops.length], List.getElem?_eq_getElem hlt, ?_⟩
    rw [if_neg hnil, List.getElem?_eq_getElem hlt]

end EventLoopThreadPool

/-! ## The pool of a server -/

/-- What a server uses its pool for. -/
structure ServerPool where
  pool : EventLoopThreadPool
  /-- `threadInitCallback_` is set. -/
  cb : Bool
  /-- `started_` of the server. -/
  started : Int
  /-- `acceptor_->listening()`. -/
  listening : Bool
  /-- The calls of `Acceptor::listen`. -/
  listens : Nat
  /-- `numThreads_` at the start, and whether there was a callback. -/
  startedWith : Option (Int × Bool)
  /-- The loops that were passed to the `ThreadInitCallback`. -/
  inits : List LoopId
  /-- The loops that `getNextLoop` has returned. -/
  given : List LoopId
  /-- The calls of `getLoopForHash` since the start, with what they returned. -/
  hashed : List (Nat × LoopId)
  deriving DecidableEq, Repr

namespace ServerPool

open EventLoopThreadPool (startLoops)

def new : ServerPool where
  pool := .new
  cb := false
  started := 0
  listening := false
  listens := 0
  startedWith := none
  inits := []
  given := []
  hashed := []

/-- `TcpServer::setThreadNum`. -/
def setThreadNum (s : ServerPool) (numThreads : Int) : Except Fault ServerPool := do
  assert (0 ≤ numThreads)
  return { s with pool := s.pool.setThreadNum numThreads }

/-- `Acceptor::listen`, which `runInLoop` calls at once. -/
def listen (s : ServerPool) : ServerPool :=
  { s with listening := true, listens := s.listens + 1 }

/-- `TcpServer::start`. -/
def start (s : ServerPool) : Except Fault ServerPool :=
  -- `started_.getAndSet(1)`
  let t := { s with started := 1 }
  if s.started = 0 then do
    let (pool, called) ← t.pool.start t.cb
    assert (t.listening = false)
    return listen
      { t with
        pool := pool
        startedWith := some (t.pool.numThreads, t.cb)
        inits := t.inits ++ called }
  else
    .ok t

def getNextLoop (s : ServerPool) : Except Fault ServerPool := do
  let (loop, pool) ← s.pool.getNextLoop
  return { s with pool := pool, given := s.given ++ [loop] }

def getLoopForHash (s : ServerPool) (hashCode : Nat) : Except Fault ServerPool := do
  let loop ← s.pool.getLoopForHash hashCode
  return if s.pool.started then { s with hashed := s.hashed ++ [(hashCode, loop)] } else s

inductive Act
  | setThreadNum (numThreads : Int)
  /-- `threadPool()->setThreadNum`. -/
  | setPoolThreadNum (numThreads : Int)
  | setThreadInitCallback
  | start
  | getNextLoop
  | getLoopForHash (hashCode : Nat)
  | getAllLoops
  deriving DecidableEq, Repr

def exec (s : ServerPool) : Act → Except Fault ServerPool
  | .setThreadNum numThreads => s.setThreadNum numThreads
  | .setPoolThreadNum numThreads => .ok { s with pool := s.pool.setThreadNum numThreads }
  | .setThreadInitCallback => .ok { s with cb := true }
  | .start => s.start
  | .getNextLoop => s.getNextLoop
  | .getLoopForHash hashCode => s.getLoopForHash hashCode
  | .getAllLoops => do
      let _ ← s.pool.getAllLoops
      return s

/-- `getNextLoop` and `getAllLoops` are "valid after calling start()". -/
def Enabled (s : ServerPool) : Act → Prop
  | .setThreadNum numThreads => 0 ≤ numThreads
  | .getNextLoop => s.pool.started = true
  | .getAllLoops => s.pool.started = true
  | _ => True

instance (s : ServerPool) (a : Act) : Decidable (Enabled s a) :=
  match a with
  | .setThreadNum _ => inferInstanceAs (Decidable (_ ≤ _))
  | .setPoolThreadNum _ => isTrue trivial
  | .setThreadInitCallback => isTrue trivial
  | .start => isTrue trivial
  | .getNextLoop => inferInstanceAs (Decidable (_ = _))
  | .getLoopForHash _ => isTrue trivial
  | .getAllLoops => inferInstanceAs (Decidable (_ = _))

def system : StepSystem ServerPool Act :=
  StepSystem.ofExec (· = ServerPool.new) Enabled exec

/-! ## Fairness -/

variable {s : ServerPool}

structure Fair (s : ServerPool) : Prop where
  /-- What was set when the pool was started decides which loops it has, and which of them were
  initialised. -/
  start : ∀ {n : Int} {cb : Bool}, s.startedWith = some (n, cb) →
    s.pool.loops = startLoops n ∧ s.inits = if cb = true ∧ 0 ≤ n then s.pool.players else []
  /-- However often the server is started, it listens once. -/
  listens : s.listens = if s.started = 0 then 0 else 1
  turns : s.given = RoundRobin.deal s.pool.players s.given.length
  shares : ∀ {i : Nat} {loop : LoopId}, s.pool.players[i]? = some loop →
    s.given.count loop = s.given.length / s.pool.players.length +
      if i < s.given.length % s.pool.players.length then 1 else 0
  /-- "with the same hash code, it will always return the same EventLoop" -/
  hashed : ∀ {code : Nat} {loop loop' : LoopId},
    (code, loop) ∈ s.hashed → (code, loop') ∈ s.hashed → loop = loop'

structure Inv (s : ServerPool) : Prop where
  stopped : s.pool.started = false →
    s.started = 0 ∧ s.listening = false ∧ s.listens = 0 ∧ s.startedWith = none ∧
      s.pool.loops = [] ∧ s.pool.next = 0 ∧ s.inits = [] ∧ s.given = [] ∧ s.hashed = []
  running : s.pool.started = true → s.started = 1 ∧ s.listens = 1 ∧
    ∃ n cb, s.startedWith = some (n, cb) ∧ s.pool.loops = startLoops n ∧
      s.inits = if cb = true ∧ 0 ≤ n then s.pool.players else []
  next : s.pool.next = s.given.length % s.pool.players.length
  turns : s.given = RoundRobin.deal s.pool.players s.given.length
  hashed : ∀ {h loop}, (h, loop) ∈ s.hashed →
    s.pool.players[h % s.pool.players.length]? = some loop

theorem Inv.fair (h : Inv s) : Fair s := by
  have hloops : ∃ n, s.pool.loops = startLoops n := by
    cases hstarted : s.pool.started with
    | false =>
        rcases h.stopped hstarted with ⟨_, _, _, _, hnil, _⟩
        exact ⟨0, hnil⟩
    | true =>
        rcases h.running hstarted with ⟨_, _, n, _, _, hn, _⟩
        exact ⟨n, hn⟩
  rcases hloops with ⟨n, hn⟩
  have hnodup := EventLoopThreadPool.nodup_players hn
  refine ⟨?_, ?_, h.turns, ?_, ?_⟩
  · intro n cb hwith
    cases hstarted : s.pool.started with
    | false =>
        rcases h.stopped hstarted with ⟨_, _, _, hnone, _⟩
        rw [hnone] at hwith
        cases hwith
    | true =>
        rcases h.running hstarted with ⟨_, _, n', cb', hwith', hloops, hinits⟩
        rw [hwith'] at hwith
        cases hwith
        exact ⟨hloops, hinits⟩
  · cases hstarted : s.pool.started with
    | false =>
        rcases h.stopped hstarted with ⟨hzero, _, hlistens, _⟩
        simp [hzero, hlistens]
    | true =>
        rcases h.running hstarted with ⟨hone, hlistens, _⟩
        simp [hone, hlistens]
  · intro i loop hi
    rw [← RoundRobin.count_deal hnodup hi, ← h.turns]
  · intro code loop loop' hin hin'
    exact Option.some.inj ((h.hashed hin).symm.trans (h.hashed hin'))

theorem new_inv : Inv ServerPool.new := by
  refine ⟨fun _ => ⟨rfl, rfl, rfl, rfl, rfl, rfl, rfl, rfl, rfl⟩, fun h => ?_, rfl, rfl,
    fun h => ?_⟩
  · cases h
  · cases h

/-- A change of the settings. -/
theorem Inv.set {t : ServerPool} (h : Inv s) (n : Int) (cb : Bool)
    (ht : t = { s with pool := s.pool.setThreadNum n, cb := cb }) : Inv t := by
  subst ht
  exact ⟨h.stopped, h.running, h.next, h.turns, h.hashed⟩

/-- The loops that the callback is given are the players, unless their number is negative. -/
theorem called_eq (n : Int) (hp : s.pool.loops = startLoops n) :
    (if n = 0 then [.base] else startLoops n) = if 0 ≤ n then s.pool.players else [] := by
  by_cases hneg : n < 0
  · rw [if_neg (by omega), if_neg (by omega), EventLoopThreadPool.startLoops_eq_nil]
    omega
  · rw [if_pos (show 0 ≤ n by omega), EventLoopThreadPool.players, hp]
    refine if_congr ?_ rfl rfl
    rw [EventLoopThreadPool.startLoops_eq_nil]
    omega

theorem Inv.start (h : Inv s) : ∃ t, s.start = .ok t ∧ Inv t := by
  cases hstarted : s.pool.started with
  | true =>
      -- A later call finds `started_` set.
      rcases h.running hstarted with ⟨hone, hrunning⟩
      have hne : ¬ s.started = 0 := by simp [hone]
      refine ⟨{ s with started := 1 }, if_neg hne, ?_, ?_, h.next, h.turns, h.hashed⟩
      · intro hs
        rw [hstarted] at hs
        cases hs
      · intro _
        exact ⟨rfl, hrunning⟩
  | false =>
      rcases h.stopped hstarted with
        ⟨hzero, hidle, hlistens, _, hnil, hnext, hinits, hgiven, hhashed⟩
      generalize hn : s.pool.numThreads = n
      let t : ServerPool :=
        listen { s with
          started := 1
          pool := { s.pool with started := true, loops := startLoops n }
          startedWith := some (n, s.cb)
          inits := if s.cb then if n = 0 then [.base] else startLoops n else [] }
      have hstart : s.start = .ok t := by
        simp [t, ServerPool.start, EventLoopThreadPool.start, hzero, hidle, hnil, hinits, hn,
          assert_pos hstarted]
      refine ⟨t, hstart, ?_, ?_, ?_, ?_, ?_⟩
      · intro hs
        cases hs
      · intro _
        refine ⟨rfl, by simp [t, listen, hlistens], n, s.cb, rfl, rfl, ?_⟩
        have hcalled := called_eq (s := t) n rfl
        cases hcb : s.cb with
        | false => simp [t, listen, hcb]
        | true => simpa [t, listen, hcb] using hcalled
      · simp [t, listen, hnext, hgiven]
      · simp [t, listen, hgiven]
      · intro code loop hin
        simp [t, listen, hhashed] at hin

theorem Inv.getNextLoop (h : Inv s) (hstarted : s.pool.started = true) :
    ∃ t, s.getNextLoop = .ok t ∧ Inv t := by
  rcases EventLoopThreadPool.getNextLoop_eq hstarted h.next with ⟨loop, hloop, heq⟩
  let t : ServerPool :=
    { s with
      pool := { s.pool with next := (s.given.length + 1) % s.pool.players.length }
      given := s.given ++ [loop] }
  have hlength : t.given.length = s.given.length + 1 := by simp [t]
  refine ⟨t, by rw [ServerPool.getNextLoop, heq]; rfl, ?_, h.running, ?_, ?_, h.hashed⟩
  · intro hs
    rw [show t.pool.started = true from hstarted] at hs
    cases hs
  · rw [hlength]
    rfl
  · rw [hlength]
    calc t.given = RoundRobin.deal s.pool.players s.given.length ++ [loop] := by
          rw [← h.turns]
      _ = RoundRobin.deal s.pool.players (s.given.length + 1) := (RoundRobin.deal_succ hloop).symm

theorem Inv.getLoopForHash (h : Inv s) (code : Nat) :
    ∃ t, s.getLoopForHash code = .ok t ∧ Inv t := by
  rcases s.pool.getLoopForHash_eq code with ⟨loop, hloop, heq⟩
  rw [ServerPool.getLoopForHash, heq]
  cases hstarted : s.pool.started with
  | false => exact ⟨s, by simp, h⟩
  | true =>
      refine ⟨{ s with hashed := s.hashed ++ [(code, loop)] }, by simp, ?_, h.running, h.next,
        h.turns, ?_⟩
      · intro hs
        rw [hstarted] at hs
        cases hs
      · intro code' loop' hin
        rcases List.mem_append.mp hin with hin | hin
        · exact h.hashed hin
        · cases List.mem_singleton.mp hin
          exact hloop

theorem step_inv (h : Inv s) {a : Act} (hen : Enabled s a) : ∃ t, exec s a = .ok t ∧ Inv t := by
  cases a with
  | setThreadNum n =>
      have hn : 0 ≤ n := hen
      refine ⟨{ s with pool := s.pool.setThreadNum n }, ?_, h.set n s.cb rfl⟩
      rw [exec, ServerPool.setThreadNum, assert_pos hn]
      rfl
  | setPoolThreadNum n => exact ⟨_, rfl, h.set n s.cb rfl⟩
  | setThreadInitCallback => exact ⟨_, rfl, h.set s.pool.numThreads true rfl⟩
  | start => exact h.start
  | getNextLoop => exact h.getNextLoop hen
  | getLoopForHash code => exact h.getLoopForHash code
  | getAllLoops =>
      refine ⟨s, ?_, h⟩
      rw [exec, EventLoopThreadPool.getAllLoops_of_started hen]
      rfl

/-- In any order of calls that asks the pool for loops after the start only, no assertion fails and
the loops have their turns fairly. -/
theorem pool_is_fair (hs : system.Reachable s) :
    (∀ a, Enabled s a → ∃ t, exec s a = .ok t) ∧ Fair s := by
  have hsafe := StepSystem.ofExec_safe (I := Inv) ?_ (fun h hen => step_inv h hen) hs
  · exact ⟨hsafe.2, hsafe.1.fair⟩
  · rintro _ rfl
    exact new_inv

/-- Three threads with a callback; the number set after the start is for nothing, and so is the
second start. -/
def threeThreadsRun : List Act :=
  [.getLoopForHash 5, .setThreadNum 3, .setThreadInitCallback, .start, .getNextLoop, .getNextLoop,
    .setThreadNum 1, .getLoopForHash 5, .start, .getNextLoop, .getNextLoop, .getAllLoops,
    .getLoopForHash 5]

theorem pool_is_fair_threeThreads :
    ∃ s, StepSystem.execAll exec ServerPool.new threeThreadsRun = .ok s ∧
      s.given = [.io 0, .io 1, .io 2, .io 0] ∧ s.inits = [.io 0, .io 1, .io 2] ∧
      s.hashed = [(5, .io 2), (5, .io 2)] ∧ s.listens = 1 ∧ Fair s := by
  have hexec : ∃ s, StepSystem.execAll exec ServerPool.new threeThreadsRun = .ok s ∧
      s.given = [.io 0, .io 1, .io 2, .io 0] ∧ s.inits = [.io 0, .io 1, .io 2] ∧
      s.hashed = [(5, .io 2), (5, .io 2)] ∧ s.listens = 1 := ⟨_, rfl, by decide⟩
  rcases hexec with ⟨s, hexec, hgiven, hinits, hhashed, hlistens⟩
  have hrun : system.Run ServerPool.new threeThreadsRun s :=
    StepSystem.run_of_execAll (by decide) hexec
  have hs : system.Reachable s := hrun.reachable (StepSystem.Reachable.init rfl)
  exact ⟨s, hexec, hgiven, hinits, hhashed, hlistens, (pool_is_fair hs).2⟩

end ServerPool

/-! ## Connections -/

namespace TcpServer

open EventLoopThreadPool (startLoops)

variable {s s' : TcpServer} {k : Nat} {c : ServerConn}

/-- The pool of a started server. -/
def threadPool (s : TcpServer) : EventLoopThreadPool where
  started := true
  numThreads := s.loops
  next := s.next
  loops := startLoops s.loops

/-- The pool has had one turn for each connection, and these are the loops of the connections. -/
structure Dealt (s : TcpServer) : Prop where
  next : s.next = s.conns.length % s.threadPool.players.length
  loops : s.conns.map (·.loop) = RoundRobin.deal s.threadPool.players s.conns.length

theorem startLoops_ne_nil (h : s.loops ≠ 0) : startLoops (s.loops : Int) ≠ [] := by
  rw [ne_eq, EventLoopThreadPool.startLoops_eq_nil]
  omega

/-- `newConnection` asks the pool as `EventLoopThreadPool::getNextLoop` answers. -/
theorem getNextLoop_threadPool (h : s.next = s.conns.length % s.threadPool.players.length) :
    s.threadPool.getNextLoop =
      .ok (s.getNextLoop.1, { s.threadPool with next := s.getNextLoop.2 }) := by
  rw [EventLoopThreadPool.getNextLoop, assert_pos (show s.threadPool.started = true from rfl),
    ok_bind, getNextLoop]
  by_cases hloops : s.loops = 0
  · have hnil : s.threadPool.loops = [] := by simp [threadPool, startLoops, hloops]
    rw [if_pos hnil, if_pos hloops]
    rfl
  · have hne : s.threadPool.loops ≠ [] := startLoops_ne_nil hloops
    have hlength : s.threadPool.loops.length = s.loops := by simp [threadPool, startLoops]
    have hlt : s.next < s.loops := by
      rw [h, EventLoopThreadPool.players_of_ne_nil hne, hlength]
      exact Nat.mod_lt _ (Nat.pos_of_ne_zero hloops)
    have hchosen : s.threadPool.loops[s.threadPool.next]? = some (.io s.next) := by
      simp [threadPool, startLoops, List.getElem?_range hlt]
    rw [if_neg hne, if_neg hloops, hchosen, hlength]
    rfl

theorem Dealt.same (h : Dealt s) (hsame : Teardown.SamePool s s') : Dealt s' := by
  have hloops : s'.conns.map (·.loop) = s.conns.map (·.loop) := by
    refine List.ext_getElem? ?_
    intro k
    have hk := congrArg (Option.map Prod.snd) (hsame.conns k)
    simpa [Function.comp_def] using hk
  have hlength : s'.conns.length = s.conns.length := by
    simpa using congrArg List.length hloops
  have hpool : s'.threadPool = s.threadPool := by
    rw [threadPool, threadPool, hsame.loops, hsame.next]
  refine ⟨?_, ?_⟩
  · rw [hsame.next, hpool, hlength]
    exact h.next
  · rw [hloops, hpool, hlength]
    exact h.loops

/-- The next turn of the pool and the next connection come together. -/
theorem Dealt.admitted (h : Dealt s) (sockfd : Int) : Dealt (s.admitted sockfd) := by
  have hnext : s.threadPool.next = s.conns.length % s.threadPool.players.length := h.next
  rcases EventLoopThreadPool.getNextLoop_eq rfl hnext with ⟨loop, hloop, heq⟩
  rw [getNextLoop_threadPool h.next, Except.ok.injEq, Prod.mk.injEq] at heq
  rcases heq with ⟨hchosen, hpool⟩
  have hadvance : s.getNextLoop.2 = (s.conns.length + 1) % s.threadPool.players.length :=
    congrArg EventLoopThreadPool.next hpool
  have hlength : (s.admitted sockfd).conns.length = s.conns.length + 1 := by
    simp [TcpServer.admitted]
  have hplayers : (s.admitted sockfd).threadPool.players = s.threadPool.players := rfl
  refine ⟨?_, ?_⟩
  · rw [hlength, hplayers]
    exact hadvance
  · rw [hlength, hplayers, RoundRobin.deal_succ hloop, ← h.loops, ← hchosen]
    simp [TcpServer.admitted, nextConn]

theorem Dealt.newConnection (h : Dealt s) (sockfd : Int) : Dealt (s.newConnection sockfd) := by
  have hc := getElem?_admitted_self (s := s) sockfd
  by_cases hbase : (s.nextConn sockfd).loop = .base
  · rw [newConnection_base hbase]
    exact (h.admitted sockfd).same (Teardown.samePool_set hc rfl rfl rfl rfl rfl)
  · rw [newConnection_io hbase]
    exact (h.admitted sockfd).same ⟨fun _ => rfl, rfl, rfl⟩

theorem dealt_step (h : Dealt s) {a : Act} (hen : Enabled s a) : Dealt (s.step a) := by
  cases a with
  | newConnection sockfd => exact h.newConnection sockfd
  | peerClose k =>
      rcases hen with ⟨c, hc, _⟩
      rw [step, show s.conns[k]? = some c from hc]
      exact h.same (Teardown.samePool_peerClose hc)
  | runFunctor loop =>
      cases hqueue : s.queues loop with
      | nil => exact absurd hqueue hen
      | cons cb rest =>
          rw [step, hqueue]
          exact h.same (Teardown.samePool_run s loop rest cb)

theorem dealt_of_start (hs : Starts s) : Dealt s := by
  rcases hs with ⟨name, listenAddr, loops, rfl⟩
  exact ⟨(Nat.zero_mod _).symm, rfl⟩

/-- "new connections are assigned on a round-robin basis", "0 means all I/O in loop's threads". -/
structure Balanced (s : TcpServer) : Prop where
  placed : ∀ {k : Nat} {c : ServerConn}, s.conns[k]? = some c →
    s.threadPool.players[k % s.threadPool.players.length]? = some c.loop
  /-- The functions of a connection run on its loop. -/
  ownLoop : ∀ {k : Nat} {c : ServerConn} {on : LoopId}, s.conns[k]? = some c →
    .established k on ∈ s.log ∨ .destroyed k on ∈ s.log → on = c.loop
  shares : ∀ {i : Nat} {loop : LoopId}, s.threadPool.players[i]? = some loop →
    s.conns.countP (·.loop = loop) = s.conns.length / s.threadPool.players.length +
      if i < s.conns.length % s.threadPool.players.length then 1 else 0

/-- For any number of threads, and however accepting, closing and the functors of the loops
interleave, the connections are spread evenly over the loops of the pool and stay where they
were put. -/
theorem connections_balanced (hs : system.Reachable s) : Balanced s := by
  have hdealt : Dealt s := by
    refine hs.invariant dealt_of_start ?_
    rintro s a t h ⟨hen, rfl⟩
    exact dealt_step h hen
  have hinv : Inv s := by
    refine hs.invariant start_inv ?_
    rintro s a t h ⟨hen, rfl⟩
    exact step_inv h hen
  refine ⟨?_, ?_, ?_⟩
  · intro k c hc
    have hlt := (List.getElem?_eq_some_iff.mp hc).1
    rw [← RoundRobin.getElem?_deal s.threadPool.length_players_pos hlt, ← hdealt.loops]
    simp [hc]
  · intro k c on hc hevent
    rcases hinv.stages hc with ⟨stage, hat⟩
    have hin : .established k on ∈ stage.events k c ∨ .destroyed k on ∈ stage.events k c := by
      rw [← hat.events]
      simpa [ServerEvent.conn] using hevent
    cases stage <;> simp_all [Stage.events]
  · intro i loop hi
    have hnodup := EventLoopThreadPool.nodup_players (p := s.threadPool) rfl
    rw [← RoundRobin.count_deal hnodup hi, ← hdealt.loops, List.count, List.countP_map]
    refine List.countP_congr ?_
    intro c _
    simp

/-- Four connections on three threads; the second closes and is destroyed on the way. -/
def fourConnectionsRun : List Act :=
  [.newConnection 10, .newConnection 11, .runFunctor (.io 1), .peerClose 1, .newConnection 12,
    .runFunctor .base, .runFunctor (.io 0), .newConnection 13, .runFunctor (.io 1)]

def fourConnectionsStart : TcpServer :=
  TcpServer.new ['s'] ⟨(127, 0, 0, 1), 80⟩ 3

theorem connections_balanced_fourConnections :
    (fourConnectionsRun.foldl step fourConnectionsStart).conns.map (·.loop) =
        [.io 0, .io 1, .io 2, .io 0] ∧
      (fourConnectionsRun.foldl step fourConnectionsStart).log =
        [.established 1 (.io 1), .removed 1 1, .established 0 (.io 0), .destroyed 1 (.io 1)] ∧
      Balanced (fourConnectionsRun.foldl step fourConnectionsStart) := by
  have hrun : system.Run fourConnectionsStart fourConnectionsRun
      (fourConnectionsRun.foldl step fourConnectionsStart) :=
    StepSystem.run_foldl (by decide +kernel)
  have hs : system.Reachable (fourConnectionsRun.foldl step fourConnectionsStart) :=
    hrun.reachable (StepSystem.Reachable.init ⟨_, _, _, rfl⟩)
  exact ⟨by decide +kernel, by decide +kernel, connections_balanced hs⟩

end TcpServer

end Net
end Muduo
