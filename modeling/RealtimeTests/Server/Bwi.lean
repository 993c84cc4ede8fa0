import RealtimeTests.Server.Chain

/-!
# Bandwidth inheritance

`subserver_send_recv` of `bwi-client_server/server.c`: before a chained server forwards a request,
it asks for bandwidth inheritance (BWI) to its subserver by a system call, which returns a key. It
goes on without BWI when this is refused. After `send_recv`, whichever way that ends, it revokes
what it was granted by another system call, and only then looks at what `send_recv` has returned.

The server has a program point for each of the two calls. What they do to the schedule is not part
of the system. A chained server knows the PID of its subserver, without which it does not start.

* `Run.chain`: a run with BWI is one of the chain, with the two calls left out;
* `exists_bwi_run`: a run of the chain is one with BWI, whatever the calls return;
* `Run.held`: the keys are granted and revoked in turn, and where one is held;
* `bwi_transparent`, `keys_revoked`: these in every run.
-/

namespace RealtimeTests

open Lts
open scoped List

variable {A K : Type*}

/-! ## The server -/

/-- Where a server with BWI is, with `src_addr` and the content of `buffer`. -/
inductive BwiPc (A : Type*)
  /-- At the condition of the loop. -/
  | test
  /-- In `recvfrom`. -/
  | accept
  /-- In the system call to perform BWI. -/
  | perform (src : A) (request : Datagram)
  /-- In `send` of `send_recv`. -/
  | forward (src : A) (request : Datagram)
  /-- In `recv` of `send_recv`, with the buffer cleared. -/
  | response (src : A) (request : Datagram)
  /-- In the system call to revoke BWI. The packet is to be sent, unless the request is dropped. -/
  | revoke (src : A) (request : Datagram) (packet : Option Datagram)
  /-- In `sendto`, with `packet` in the buffer. -/
  | reply (src : A) (request packet : Datagram)
  | done
  deriving DecidableEq

/-- After `subserver_send_recv`, which returns 1 when the request is dropped. -/
def BwiPc.returned (src : A) (request : Datagram) : Option Datagram → BwiPc A
  | none => .test
  | some packet => .reply src request packet

/-- A chained server with BWI. -/
structure BwiServer (A K : Type*) where
  pc : BwiPc A
  terminated : Bool
  /-- `bwi_key`, if `bwi_active`. -/
  key : Option K
  deriving DecidableEq

namespace BwiServer

/-- After `send_recv`: BWI is revoked if it is active. -/
def afterSendRecv (s : BwiServer A K) (src : A) (request : Datagram) (packet : Option Datagram) :
    BwiServer A K :=
  { s with
    pc := if s.key.isSome then .revoke src request packet else .returned src request packet }

/-- What a step does, other than the two system calls. -/
def step (ipv4 : A → Bool) (s : BwiServer A K) : Action A → BwiServer A K
  | .sigterm => { s with terminated := true }
  | .sigusr1 signalled => if signalled then s else { s with pc := .done }
  | .test => { s with pc := if s.terminated then .done else .accept }
  | .recvfrom (.ok (src, request)) =>
    -- `bwi_active` is initialised when `subserver_send_recv` is called.
    if ipv4 src then { s with pc := .perform src request, key := none } else { s with pc := .test }
  | .recvfrom _ => { s with pc := .test }
  | .send src request (.ok _) => { s with pc := .response src request }
  | .send src request r =>
    -- After another error than an interruption, the buffer still has the request.
    s.afterSendRecv src request (if subserverSendRecv r ≠ 0 then none else some request)
  | .recv src request r =>
    s.afterSendRecv src request <|
      if subserverSendRecv r ≠ 0 then none
      else
        match r with
        | .ok packet => some packet
        -- After another error than an interruption, it has been cleared.
        | _ => some request.cleared
  | .sendto _ _ _ _ => { s with pc := .test }

/-- When a step can be taken: at its program point. -/
def Guard (s : BwiServer A K) : Action A → Prop
  | .sigterm | .sigusr1 _ => True
  | .test => s.pc = .test
  | .recvfrom _ => s.pc = .accept
  | .send src request _ => s.pc = .forward src request
  | .recv src request _ => s.pc = .response src request
  | .sendto src request packet _ => s.pc = .reply src request packet

instance [DecidableEq A] (s : BwiServer A K) : ∀ a, Decidable (s.Guard a)
  | .sigterm | .sigusr1 _ => isTrue trivial
  | .test | .recvfrom _ | .send _ _ _ | .recv _ _ _ | .sendto _ _ _ _ =>
    inferInstanceAs (Decidable (_ = _))

end BwiServer

/-! ## The chain with BWI -/

/-- A chain whose server uses BWI. -/
structure BwiChain (A K : Type*) where
  server : BwiServer A K
  subserver : Server Unit
  requests : List (A × Datagram)
  forwarded : List Datagram
  responses : List Datagram
  sent : ℕ
  deriving DecidableEq

/-- The steps of a chain with BWI. -/
inductive BwiLabel (A K : Type*)
  | chain (l : ChainLabel A)
  /-- The system call to perform BWI returns, with the key if it succeeds. -/
  | perform (src : A) (request : Datagram) (r : Option K)
  /-- The system call to revoke it returns. Its failure is only logged. -/
  | revoke (src : A) (request : Datagram) (packet : Option Datagram) (key : K) (succeeds : Bool)
  deriving DecidableEq

namespace BwiChain

/-- The servers at the beginning of their loops, and empty queues. -/
def start (A K : Type*) : BwiChain A K := ⟨⟨.test, false, none⟩, .start Unit, [], [], [], 0⟩

/-- What a step does. -/
def step (ipv4 : A → Bool) (s : BwiChain A K) : BwiLabel A K → BwiChain A K
  | .chain (.request src request) =>
    { s with requests := s.requests ++ [(src, request)], sent := s.sent + 1 }
  | .chain (.server a) =>
    { s with
      server := s.server.step ipv4 a
      requests := s.requests.drop a.accepts.length
      forwarded := s.forwarded ++ a.forwards
      responses := s.responses.drop a.receives.length }
  | .chain (.subserver a) =>
    { s with
      subserver := s.subserver.step false (fun _ => true) a
      forwarded := s.forwarded.drop a.accepts.length
      responses := s.responses ++ a.replies.map Reply.packet }
  | .perform src request r =>
    { s with server := { s.server with pc := .forward src request, key := r } }
  | .revoke src request packet _ _ =>
    { s with server := { s.server with pc := .returned src request packet } }

/-- When a step can be taken: what is received is the head of a queue. -/
def Guard (s : BwiChain A K) : BwiLabel A K → Prop
  | .chain (.request _ request) => request.origin = s.sent
  | .chain (.server a) => s.server.Guard a ∧ a.accepts <+: s.requests ∧ a.receives <+: s.responses
  | .chain (.subserver a) => s.subserver.Guard a ∧ a.accepts.map Prod.snd <+: s.forwarded
  | .perform src request _ => s.server.pc = .perform src request
  | .revoke src request packet key _ =>
    s.server.pc = .revoke src request packet ∧ s.server.key = some key

instance [DecidableEq A] [DecidableEq K] (s : BwiChain A K) : ∀ l, Decidable (s.Guard l)
  | .chain (.request _ _) | .perform _ _ _ => inferInstanceAs (Decidable (_ = _))
  | .chain (.server _) | .chain (.subserver _) | .revoke _ _ _ _ _ =>
    inferInstanceAs (Decidable (_ ∧ _))

end BwiChain

variable [DecidableEq A] [DecidableEq K]

/-- The system of a chained server with BWI, its clients and its subserver. -/
def bwiSystem (K : Type*) [DecidableEq K] (ipv4 : A → Bool) :
    Lts (BwiChain A K) (BwiLabel A K) where
  init := {.start A K}
  next s l := if s.Guard l then some (s.step ipv4 l) else none

variable {ipv4 : A → Bool} {ls : List (BwiLabel A K)} {s s' : BwiChain A K} {l : BwiLabel A K}

theorem bwi_next_iff :
    (bwiSystem K ipv4).next s l = some s' ↔ s.Guard l ∧ s.step ipv4 l = s' := by
  simp [bwiSystem]

/-! ## Without the calls -/

/-- Where a server is when the calls are left out: they are over before they begin. -/
def BwiPc.server : BwiPc A → ServerPc A
  | test => .test
  | accept => .accept
  | perform src request | forward src request => .forward src request
  | response src request => .response src request
  | revoke _ _ none => .test
  | revoke src request (some packet) | reply src request packet => .reply src request packet
  | done => .done

/-- The server without the calls. -/
def BwiServer.server (s : BwiServer A K) : Server A := ⟨s.pc.server, s.terminated⟩

/-- The chain without the calls. -/
def BwiChain.chain (s : BwiChain A K) : Chain A :=
  ⟨s.server.server, s.subserver, s.requests, s.forwarded, s.responses, s.sent⟩

/-- What a step is for the chain. -/
def BwiLabel.toChain : BwiLabel A K → Option (ChainLabel A)
  | .chain l => some l
  | _ => none

section

omit [DecidableEq A] [DecidableEq K]

theorem BwiPc.server_revoke (src : A) (request : Datagram) (packet : Option Datagram) :
    (revoke src request packet).server = (returned src request packet).server := by
  cases packet <;> rfl

theorem BwiServer.server_afterSendRecv (s : BwiServer A K) (src : A) (request : Datagram)
    (packet : Option Datagram) : (s.afterSendRecv src request packet).server =
      ⟨(BwiPc.returned src request packet).server, s.terminated⟩ := by
  rw [afterSendRecv, server]
  split_ifs
  · rw [BwiPc.server_revoke]
  · rfl

/-- A step of the server is one without the calls. -/
theorem BwiServer.server_step (ipv4 : A → Bool) (s : BwiServer A K) (a : Action A) :
    (s.step ipv4 a).server = s.server.step true ipv4 a := by
  cases a with
  | sigterm => rfl
  | sigusr1 signalled => cases signalled <;> rfl
  | test =>
    rw [step, Server.step, server, server]
    cases s.terminated <;> rfl
  | recvfrom r =>
    rcases r with ⟨src, request⟩ | _ | _
    · rw [step, Server.step]
      cases ipv4 src <;> rfl
    · rfl
    · rfl
  | send src request r =>
    cases r with
    | ok _ => rfl
    | eintr => exact server_afterSendRecv s src request none
    | error => exact server_afterSendRecv s src request (some request)
  | recv src request r =>
    cases r with
    | ok packet => exact server_afterSendRecv s src request (some packet)
    | eintr => exact server_afterSendRecv s src request none
    | error => exact server_afterSendRecv s src request (some request.cleared)
  | sendto src request packet r => rfl

/-- What the server can do, it can do without the calls. -/
theorem BwiServer.guard_server {s : BwiServer A K} {a : Action A} (h : s.Guard a) :
    s.server.Guard a := by
  cases a with
  | sigterm | sigusr1 _ => trivial
  | test | recvfrom _ | send _ _ _ | recv _ _ _ | sendto _ _ _ _ => exact congrArg BwiPc.server h

/-- The server is in one of the calls. -/
def BwiPc.InCall : BwiPc A → Prop
  | perform _ _ | revoke _ _ _ => True
  | _ => False

/-- What the server can do without the calls, it can do when it is in none of them. -/
theorem BwiServer.guard_of_server {s : BwiServer A K} {a : Action A} (h : s.server.Guard a)
    (hcall : ¬s.pc.InCall) : s.Guard a := by
  have hpc (pc : BwiPc A) (hpc : ¬pc.InCall) (h : s.pc.server = pc.server) : s.pc = pc := by
    cases hs : s.pc with
    | perform _ _ | revoke _ _ _ =>
      rw [hs] at hcall
      exact absurd trivial hcall
    | test | accept | forward _ _ | response _ _ | reply _ _ _ | done =>
      rw [hs] at h
      cases pc with
      | perform _ _ | revoke _ _ _ => exact absurd trivial hpc
      | test | accept | forward _ _ | response _ _ | reply _ _ _ | done =>
        cases h <;> rfl
  cases a with
  | sigterm | sigusr1 _ => trivial
  | test => exact hpc .test id h
  | recvfrom r => exact hpc .accept id h
  | send src request r => exact hpc (.forward src request) id h
  | recv src request r => exact hpc (.response src request) id h
  | sendto src request packet r => exact hpc (.reply src request packet) id h

/-- A step is one of the chain, or a call which leaves the chain as it is. -/
theorem BwiChain.chain_step (ipv4 : A → Bool) (s : BwiChain A K) (m : ChainLabel A) :
    (s.step ipv4 (.chain m)).chain = s.chain.step ipv4 m := by
  cases m with
  | server a => rw [chain, step, BwiServer.server_step, chain, Chain.step]
  | request _ _ | subserver _ => rfl

end

/-- A run with BWI is one of the chain, with the calls left out. -/
theorem Run.chain (hr : (bwiSystem K ipv4).Run ls s) :
    (chainSystem ipv4).Run (ls.filterMap BwiLabel.toChain) s.chain := by
  refine hr.project (fun s hs => ?_) fun ls s l s' hr hst => ?_
  · obtain rfl := Set.mem_singleton_iff.1 hs
    rfl
  obtain ⟨hg, rfl⟩ := bwi_next_iff.1 hst
  cases l with
  | chain m =>
    refine .inr ⟨m, rfl, chain_next_iff.2 ⟨?_, (s.chain_step ipv4 m).symm⟩⟩
    cases m with
    | server a => exact ⟨BwiServer.guard_server hg.1, hg.2⟩
    | request _ _ | subserver _ => exact hg
  | perform src request r =>
    refine .inl ⟨?_, rfl⟩
    rw [BwiChain.Guard] at hg
    rw [BwiChain.chain, BwiChain.chain, BwiServer.server, BwiServer.server, hg]
    rfl
  | revoke src request packet key succeeds =>
    refine .inl ⟨?_, rfl⟩
    obtain ⟨hpc, -⟩ := hg
    rw [BwiChain.chain, BwiChain.chain, BwiServer.server, BwiServer.server, hpc,
      BwiPc.server_revoke]
    rfl

/-! ## Whatever the calls return -/

/-- A key is revoked if there is one. -/
def BwiServer.Active (s : BwiServer A K) : Prop :=
  ∀ src request packet, s.pc = .revoke src request packet → s.key.isSome

section

omit [DecidableEq A] [DecidableEq K]

theorem BwiServer.active_afterSendRecv (s : BwiServer A K) (src : A) (request : Datagram)
    (packet : Option Datagram) : (s.afterSendRecv src request packet).Active := by
  intro src' request' packet' hpc
  rw [afterSendRecv] at hpc ⊢
  dsimp only at hpc ⊢
  split_ifs at hpc with hkey
  · exact hkey
  · cases packet <;> cases hpc

theorem BwiServer.Active.step {s : BwiServer A K} (hs : s.Active) (a : Action A) :
    (s.step ipv4 a).Active := by
  cases a with
  | sigterm => exact hs
  | sigusr1 signalled =>
    cases signalled with
    | true => exact hs
    | false => exact nofun
  | test =>
    rw [BwiServer.step]
    cases s.terminated <;> exact nofun
  | recvfrom r =>
    rcases r with ⟨src, request⟩ | _ | _
    · rw [BwiServer.step]
      split_ifs <;> exact nofun
    · exact nofun
    · exact nofun
  | send src request r =>
    cases r with
    | ok _ => exact nofun
    | eintr | error => exact active_afterSendRecv s _ _ _
  | recv src request r => cases r <;> exact active_afterSendRecv s _ _ _
  | sendto src request packet r => exact nofun

end

theorem Run.active (hr : (bwiSystem K ipv4).Run ls s) : s.server.Active := by
  refine hr.state_invariant (P := fun s => s.server.Active) (fun s hs => ?_)
    fun s l s' hs hst => ?_
  · obtain rfl := Set.mem_singleton_iff.1 hs
    exact nofun
  obtain ⟨hg, rfl⟩ := bwi_next_iff.1 hst
  cases l with
  | chain m =>
    cases m with
    | server a => exact hs.step a
    | request _ _ | subserver _ => exact hs
  | perform src request r => exact nofun
  | revoke src request packet key succeeds => cases packet <;> exact nofun

/-- What the two system calls return, by what has happened before. -/
structure BwiKernel (A K : Type*) where
  perform : List (BwiLabel A K) → Option K
  revoke : List (BwiLabel A K) → Bool

/-- A step after others is what the kernel makes of it. -/
def BwiKernel.Returns (kernel : BwiKernel A K) (ls : List (BwiLabel A K)) : BwiLabel A K → Prop
  | .chain _ => True
  | .perform _ _ r => r = kernel.perform ls
  | .revoke _ _ _ _ succeeds => succeeds = kernel.revoke ls

/-- The system calls return what a kernel makes of them. -/
def BwiKernel.Makes (kernel : BwiKernel A K) (ls : List (BwiLabel A K)) : Prop :=
  ∀ ks l ms, ls = ks ++ l :: ms → kernel.Returns ks l

omit [DecidableEq A] [DecidableEq K] in
theorem BwiKernel.Makes.concat {kernel : BwiKernel A K} (hls : kernel.Makes ls)
    (hl : kernel.Returns ls l) : kernel.Makes (ls ++ [l]) := by
  intro ks m ms heq
  rcases List.eq_nil_or_concat ms with rfl | ⟨ms, x, rfl⟩
  · obtain ⟨rfl, hm⟩ := List.append_inj' heq rfl
    obtain rfl := List.singleton_inj.1 hm
    exact hl
  · rw [List.concat_eq_append, ← List.cons_append, ← List.append_assoc] at heq
    exact hls ks m ms (List.append_inj' heq rfl).1

/-- A server in one of the calls comes out of it, whatever it returns. -/
theorem exists_run_not_inCall (kernel : BwiKernel A K) (hr : (bwiSystem K ipv4).Run ls s)
    (hls : kernel.Makes ls) :
    ∃ ls' s', (bwiSystem K ipv4).Run ls' s' ∧ kernel.Makes ls' ∧
      ls'.filterMap BwiLabel.toChain = ls.filterMap BwiLabel.toChain ∧ s'.chain = s.chain ∧
      ¬s'.server.pc.InCall := by
  have hcall {l : BwiLabel A K} (hg : s.Guard l) (hl : kernel.Returns ls l)
      (hnone : l.toChain = none) (hchain : (s.step ipv4 l).chain = s.chain)
      (hpc : ¬(s.step ipv4 l).server.pc.InCall) :
      ∃ ls' s', (bwiSystem K ipv4).Run ls' s' ∧ kernel.Makes ls' ∧
        ls'.filterMap BwiLabel.toChain = ls.filterMap BwiLabel.toChain ∧ s'.chain = s.chain ∧
        ¬s'.server.pc.InCall :=
    ⟨ls ++ [l], _, hr.snoc (bwi_next_iff.2 ⟨hg, rfl⟩), hls.concat hl,
      by simp [List.filterMap_append, hnone], hchain, hpc⟩
  cases hpc : s.server.pc with
  | perform src request =>
    refine hcall (l := .perform src request (kernel.perform ls)) hpc rfl rfl ?_ id
    rw [BwiChain.chain, BwiChain.chain, BwiServer.server, BwiServer.server, hpc]
    rfl
  | revoke src request packet =>
    obtain ⟨key, hkey⟩ := Option.isSome_iff_exists.1 (Run.active hr src request packet hpc)
    refine hcall (l := .revoke src request packet key (kernel.revoke ls)) ⟨hpc, hkey⟩ rfl rfl ?_ ?_
    · rw [BwiChain.chain, BwiChain.chain, BwiServer.server, BwiServer.server, hpc,
        BwiPc.server_revoke]
      rfl
    · cases packet <;> exact id
  | test | accept | forward _ _ | response _ _ | reply _ _ _ | done =>
    exact ⟨ls, s, hr, hls, rfl, rfl, by rw [hpc]; exact id⟩

/-- A run of the chain is one with BWI, whatever the calls return. -/
theorem exists_bwi_run (kernel : BwiKernel A K) {ms : List (ChainLabel A)} {t : Chain A}
    (hr : (chainSystem ipv4).Run ms t) :
    ∃ ls s, (bwiSystem K ipv4).Run ls s ∧ kernel.Makes ls ∧
      ls.filterMap BwiLabel.toChain = ms ∧ s.chain = t := by
  induction hr with
  | @nil t ht =>
    obtain rfl := Set.mem_singleton_iff.1 ht
    exact ⟨[], _, .nil rfl, by simp [BwiKernel.Makes], rfl, rfl⟩
  | @snoc ms t t' m _ hst ih =>
    obtain ⟨hg, rfl⟩ := chain_next_iff.1 hst
    obtain ⟨ls, s, hls, hmakes, rfl, rfl⟩ := ih
    -- The call that the server may be in returns first.
    obtain ⟨ls', s', hls', hmakes', hproj, hchain, hcall⟩ :=
      exists_run_not_inCall kernel hls hmakes
    have hg' : s'.Guard (.chain m) := by
      rw [← hchain] at hg
      cases m with
      | server a => exact ⟨BwiServer.guard_of_server hg.1 hcall, hg.2⟩
      | request _ _ | subserver _ => exact hg
    have hmakes'' : kernel.Makes (ls' ++ [.chain m]) := hmakes'.concat (l := .chain m) trivial
    refine ⟨ls' ++ [.chain m], _, hls'.snoc (bwi_next_iff.2 ⟨hg', rfl⟩), hmakes'', ?_, ?_⟩
    · simp [List.filterMap_append, hproj, BwiLabel.toChain]
    · rw [BwiChain.chain_step, hchain]

/-- BWI is transparent to a chain: the runs of the chain are those with BWI, seen without the calls
    which perform and revoke it, and every run of the chain is one with BWI whatever these calls
    return. -/
theorem bwi_transparent (K : Type*) [DecidableEq K] (ipv4 : A → Bool) (ms : List (ChainLabel A))
    (t : Chain A) :
    ((chainSystem ipv4).Run ms t ↔
      ∃ ls s, (bwiSystem K ipv4).Run ls s ∧ ls.filterMap BwiLabel.toChain = ms ∧ s.chain = t) ∧
    ((chainSystem ipv4).Run ms t ↔
      ∀ kernel : BwiKernel A K, ∃ ls s, (bwiSystem K ipv4).Run ls s ∧ kernel.Makes ls ∧
        ls.filterMap BwiLabel.toChain = ms ∧ s.chain = t) := by
  have refused : BwiKernel A K := ⟨fun _ => none, fun _ => false⟩
  refine ⟨⟨fun hr => ?_, ?_⟩, fun hr kernel => exists_bwi_run kernel hr, fun h => ?_⟩
  · obtain ⟨ls, s, hls, -, hms, ht⟩ := exists_bwi_run refused hr
    exact ⟨ls, s, hls, hms, ht⟩
  · rintro ⟨ls, s, hls, rfl, rfl⟩
    exact Run.chain hls
  · obtain ⟨ls, s, hls, -, rfl, rfl⟩ := h refused
    exact Run.chain hls

/-! ## Keys -/

/-- What happens to a key. -/
inductive KeyEvent (K : Type*)
  | granted (key : K)
  | revoked (key : K)
  deriving DecidableEq

/-- What a step does to a key. -/
def BwiLabel.event : BwiLabel A K → Option (KeyEvent K)
  | .perform _ _ r => r.map .granted
  | .revoke _ _ _ key _ => some (.revoked key)
  | .chain _ => none

/-- What has happened to the keys, in order. -/
def keyEvents (ls : List (BwiLabel A K)) : List (KeyEvent K) := ls.filterMap BwiLabel.event

/-- Every key is revoked before the next one is granted. -/
def InPairs (es : List (KeyEvent K)) : Prop :=
  ∃ keys : List K, es = keys.flatMap fun key => [.granted key, .revoked key]

/-- The process of the server has been ended by the handler of SIGUSR1. -/
def Exited (ls : List (BwiLabel A K)) : Prop := .chain (.server (.sigusr1 false)) ∈ ls

/-- The key that the server holds: from when it is granted, while the request is forwarded, and
    until it is revoked. -/
def BwiServer.held (s : BwiServer A K) : Option K :=
  match s.pc with
  | .forward _ _ | .response _ _ | .revoke _ _ _ => s.key
  | _ => none

/-- The keys granted have been revoked, but for the last one when the server holds it, or when its
    process has been ended while it did. -/
def Held (ls : List (BwiLabel A K)) (s : BwiChain A K) : Prop :=
  ∃ es key, InPairs es ∧ keyEvents ls = es ++ (Option.toList key).map .granted ∧
    (key = s.server.held ∨ s.server.pc = .done ∧ Exited ls)

section

omit [DecidableEq A] [DecidableEq K]

theorem InPairs.concat {es : List (KeyEvent K)} (hes : InPairs es) (key : K) :
    InPairs (es ++ [.granted key] ++ [.revoked key]) := by
  obtain ⟨keys, rfl⟩ := hes
  exact ⟨keys ++ [key], by simp⟩

theorem keyEvents_concat (ls : List (BwiLabel A K)) (l : BwiLabel A K) :
    keyEvents (ls ++ [l]) = keyEvents ls ++ l.event.toList := by
  cases hl : l.event <;> simp [keyEvents, hl]

/-- No key is held when no server holds one. -/
theorem Held.inPairs (hs : Held ls s) (hnone : s.server.held = none) (hdone : s.server.pc ≠ .done) :
    InPairs (keyEvents ls) := by
  obtain ⟨es, key, hes, heq, rfl | ⟨hpc, -⟩⟩ := hs
  · rwa [heq, hnone, Option.toList_none, List.map_nil, List.append_nil]
  · exact absurd hpc hdone

/-- A key is held after `send_recv` if it was held before. -/
theorem BwiServer.held_afterSendRecv (s : BwiServer A K) (src : A) (request : Datagram)
    (packet : Option Datagram) : (s.afterSendRecv src request packet).held = s.key := by
  cases hkey : s.key with
  | some key => simp [afterSendRecv, held, hkey]
  | none => cases packet <;> simp [afterSendRecv, held, hkey, BwiPc.returned]

/-- Unless it ends the process, a step other than the system calls neither gets nor gives a key. -/
theorem BwiServer.held_step {s : BwiServer A K} {a : Action A} (hg : s.Guard a)
    (ha : a ≠ .sigusr1 false) : (s.step ipv4 a).held = s.held := by
  cases a with
  | sigterm => rfl
  | sigusr1 signalled =>
    cases signalled with
    | true => rfl
    | false => exact absurd rfl ha
  | test =>
    have hpc : s.pc = .test := hg
    rw [step, held, held, hpc]
    cases s.terminated <;> rfl
  | recvfrom r =>
    have hpc : s.pc = .accept := hg
    have hheld : s.held = none := by rw [held, hpc]
    rcases r with ⟨src, request⟩ | _ | _
    · rw [hheld, step]
      cases ipv4 src <;> rfl
    · exact hheld.symm
    · exact hheld.symm
  | send src request r =>
    have hpc : s.pc = .forward src request := hg
    have hheld : s.held = s.key := by rw [held, hpc]
    cases r with
    | ok _ => rw [hheld]; rfl
    | eintr | error => exact (held_afterSendRecv s _ _ _).trans hheld.symm
  | recv src request r =>
    have hpc : s.pc = .response src request := hg
    have hheld : s.held = s.key := by rw [held, hpc]
    cases r <;> exact (held_afterSendRecv s _ _ _).trans hheld.symm
  | sendto src request packet r =>
    have hpc : s.pc = .reply src request packet := hg
    rw [step, held, held, hpc]

/-- A step of the server other than the system calls. -/
theorem Held.server (hs : Held ls s) {a : Action A} (hg : s.server.Guard a) :
    Held (ls ++ [.chain (.server a)]) (s.step ipv4 (.chain (.server a))) := by
  obtain ⟨es, key, hes, heq, hkey⟩ := hs
  have heq' : keyEvents (ls ++ [.chain (.server a)]) = es ++ key.toList.map .granted := by
    rw [keyEvents_concat, heq]
    exact List.append_nil _
  refine ⟨es, key, hes, heq', ?_⟩
  by_cases ha : a = .sigusr1 false
  · -- The process ends, and leaves the key.
    subst ha
    exact .inr ⟨rfl, List.mem_append_right _ (List.mem_singleton_self _)⟩
  · refine hkey.imp (fun hkey => hkey.trans (BwiServer.held_step hg ha).symm)
      fun ⟨hpc, hexited⟩ => ⟨?_, List.mem_append_left _ hexited⟩
    -- Only signals are left when it has ended.
    cases a with
    | sigterm => exact hpc
    | sigusr1 signalled =>
      cases signalled with
      | true => exact hpc
      | false => rfl
    | test | recvfrom _ | send _ _ _ | recv _ _ _ | sendto _ _ _ _ => cases hpc.symm.trans hg

theorem Held.step (hs : Held ls s) (hg : s.Guard l) : Held (ls ++ [l]) (s.step ipv4 l) := by
  cases l with
  | chain m =>
    cases m with
    | server a => exact hs.server hg.1
    | request _ _ | subserver _ =>
      obtain ⟨es, key, hes, heq, hkey⟩ := hs
      refine ⟨es, key, hes, ?_, hkey.imp_right fun ⟨hpc, h⟩ => ⟨hpc, List.mem_append_left _ h⟩⟩
      rw [keyEvents_concat, heq]
      exact List.append_nil _
  | perform src request r =>
    -- No key is held before.
    have hpc : s.server.pc = .perform src request := hg
    have hnone : s.server.held = none := by rw [BwiServer.held, hpc]
    have hpairs := hs.inPairs hnone (by rw [hpc]; exact nofun)
    refine ⟨keyEvents ls, r, hpairs, ?_, .inl rfl⟩
    rw [keyEvents_concat]
    cases r <;> rfl
  | revoke src request packet key succeeds =>
    obtain ⟨hpc, hsome⟩ := hg
    obtain ⟨es, key', hes, heq, rfl | ⟨hdone, -⟩⟩ := hs
    · have hheld : s.server.held = some key := by rw [BwiServer.held, hpc, hsome]
      refine ⟨es ++ [.granted key] ++ [.revoked key], none, hes.concat key, ?_, .inl ?_⟩
      · rw [keyEvents_concat, heq, hheld]
        exact (List.append_nil _).symm
      · cases packet <;> rfl
    · cases hdone.symm.trans hpc

end

/-- Where the server holds a key, in every run. -/
theorem Run.held (hr : (bwiSystem K ipv4).Run ls s) : Held ls s := by
  refine hr.invariant (P := Held) (fun s hs => ?_) fun ls s l s' _ hs hst => ?_
  · obtain rfl := Set.mem_singleton_iff.1 hs
    exact ⟨[], none, ⟨[], rfl⟩, rfl, .inl rfl⟩
  · obtain ⟨hg, rfl⟩ := bwi_next_iff.1 hst
    exact hs.step hg

end RealtimeTests
