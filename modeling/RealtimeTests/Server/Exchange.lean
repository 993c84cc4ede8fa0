import RealtimeTests.Server
import Mathlib.Logic.Function.Basic

/-!
# Clients of a server

A server which is not chained, and the programs that send it requests, such as
`bwi-client_server/client.c` and `bwi-client_server/server_hog.c`. The socket of a client is
connected to the server, so that it gets what the server sends to it and nothing else. Datagrams
wait in the queue of a socket until they are received, and may be lost there.

* `Exchange.outstanding_step`: what a step makes of what is outstanding for a client;
* `Run.exchanged`: what a client has received and what is outstanding has been sent by it;
* `Run.delivered`: nothing is missing when nothing has been lost (`Exchange.Delivers`);
* `receives_own_requests`: a client gets its own requests back.
-/

namespace RealtimeTests

open Lts
open scoped List

/-- The server, and what is in the queues of its socket and of those of its clients. -/
structure Exchange (A : Type*) where
  server : Server A
  requests : List (A × Datagram)
  responses : A → List Datagram

/-- The steps of the clients, of the server, and of the network. -/
inductive ExchangeLabel (A : Type*)
  | send (src : A) (request : Datagram)
  | recv (src : A) (response : Datagram)
  | server (a : Action A)
  /-- Only these requests are kept. -/
  | loseRequests (kept : List (A × Datagram))
  /-- Only these responses to a client are kept. -/
  | loseResponses (src : A) (kept : List Datagram)
  deriving DecidableEq

variable {A : Type*} [DecidableEq A]

/-- What is about a client. -/
def ofSource (src : A) (xs : List (A × Datagram)) : List Datagram :=
  xs.filterMap fun x => if x.1 = src then some x.2 else none

@[simp]
theorem ofSource_append (src : A) (xs ys : List (A × Datagram)) :
    ofSource src (xs ++ ys) = ofSource src xs ++ ofSource src ys :=
  List.filterMap_append

theorem ofSource_sublist (src : A) {xs ys : List (A × Datagram)} (h : xs <+ ys) :
    ofSource src xs <+ ofSource src ys :=
  h.filterMap _

/-- What a step of the server sends, and to whom. -/
def Action.sends (a : Action A) : List (A × Datagram) := a.replies.map fun r => (r.src, r.packet)

namespace Exchange

/-- What a step does. -/
def step (ipv4 : A → Bool) (s : Exchange A) : ExchangeLabel A → Exchange A
  | .send src request => { s with requests := s.requests ++ [(src, request)] }
  | .recv src _ =>
    { s with responses := Function.update s.responses src ((s.responses src).drop 1) }
  | .server a =>
    { server := s.server.step false ipv4 a
      requests := s.requests.drop a.accepts.length
      responses := fun src => s.responses src ++ ofSource src a.sends }
  | .loseRequests kept => { s with requests := kept }
  | .loseResponses src kept => { s with responses := Function.update s.responses src kept }

/-- When a step can be taken: what is received is the head of a queue. -/
def Guard (s : Exchange A) : ExchangeLabel A → Prop
  | .send _ _ => True
  | .recv src response => [response] <+: s.responses src
  | .server a => s.server.Guard a ∧ a.accepts <+: s.requests
  | .loseRequests kept => kept <+ s.requests
  | .loseResponses src kept => kept <+ s.responses src

instance (s : Exchange A) : ∀ l, Decidable (s.Guard l)
  | .send _ _ => isTrue trivial
  | .recv _ _ => inferInstanceAs (Decidable (_ <+: _))
  | .server _ => inferInstanceAs (Decidable (_ ∧ _))
  | .loseRequests _ | .loseResponses _ _ => inferInstanceAs (Decidable (_ <+ _))

/-- What is outstanding for a client: the responses on their way to it, and then its requests
    which the server has or gets. -/
def outstanding (s : Exchange A) (src : A) : List Datagram :=
  s.responses src ++ ofSource src (s.server.pc.serving ++ s.requests)

/-- Nothing is lost by a step: neither on the way nor by the server. -/
def Delivers (ipv4 : A → Bool) : ExchangeLabel A → Prop
  | .loseRequests _ | .loseResponses _ _ => False
  | .server (.recvfrom (.ok (src, _))) => ipv4 src = true
  | .server (.sendto _ _ _ r) => r = .ok ()
  | .server (.sigusr1 signalled) => signalled = true
  | _ => True

end Exchange

/-- A server at the beginning of its loop with clients, and empty queues. -/
def exchange (ipv4 : A → Bool) : Lts (Exchange A) (ExchangeLabel A) where
  init := {⟨.start A, [], fun _ => []⟩}
  next s l := if s.Guard l then some (s.step ipv4 l) else none

variable {ipv4 : A → Bool} {ls : List (ExchangeLabel A)} {s s' : Exchange A} {l : ExchangeLabel A}
  {src : A}

theorem exchange_next_iff :
    (exchange ipv4).next s l = some s' ↔ s.Guard l ∧ s.step ipv4 l = s' := by
  simp [exchange]

/-! ## What has been exchanged -/

namespace ExchangeLabel

/-- The request that a client sends. -/
def sentBy (src : A) : ExchangeLabel A → List Datagram
  | send src' request => if src' = src then [request] else []
  | _ => []

/-- The response that a client receives. -/
def receivedBy (src : A) : ExchangeLabel A → List Datagram
  | recv src' response => if src' = src then [response] else []
  | _ => []

end ExchangeLabel

/-- The requests that a client has sent, in order. -/
def sentBy (src : A) (ls : List (ExchangeLabel A)) : List Datagram :=
  ls.flatMap (ExchangeLabel.sentBy src)

/-- The responses that a client has received, in order. -/
def receivedBy (src : A) (ls : List (ExchangeLabel A)) : List Datagram :=
  ls.flatMap (ExchangeLabel.receivedBy src)

@[simp]
theorem sentBy_concat : sentBy src (ls ++ [l]) = sentBy src ls ++ l.sentBy src := by
  simp [sentBy]

@[simp]
theorem receivedBy_concat :
    receivedBy src (ls ++ [l]) = receivedBy src ls ++ l.receivedBy src := by
  simp [receivedBy]

/-! ## Order -/

/-- The server of the system sends the requests back. -/
theorem Run.server_echoes (hr : (exchange ipv4).Run ls s) : s.server.Echoes := by
  refine hr.state_invariant (P := fun s => s.server.Echoes) (fun s hs => ?_)
    fun s l s' hs hst => ?_
  · obtain rfl := Set.mem_singleton_iff.1 hs
    rfl
  obtain ⟨hg, rfl⟩ := exchange_next_iff.1 hst
  cases l with
  | server a => exact (hs.step ipv4 hg.1).1
  | _ => exact hs

omit [DecidableEq A] in
/-- What a server that echoes sends are requests that it has served. -/
theorem Server.Echoes.sends_eq {s : Server A} {a : Action A} (hs : s.Echoes) (hg : s.Guard a) :
    a.sends = a.replies.map fun r => (r.src, r.request) :=
  List.map_congr_left fun r hr => by rw [(hs.step (fun _ => true) hg).2 r hr]

omit [DecidableEq A] in
/-- Nothing is dropped by a step of the server which delivers. -/
theorem Server.serving_step_of_delivers {s : Server A} {a : Action A} (hs : s.Echoes)
    (hg : s.Guard a) (hd : Exchange.Delivers ipv4 (.server a)) :
    (a.replies.map fun r => (r.src, r.request)) ++ (s.step false ipv4 a).pc.serving =
      s.pc.serving ++ a.accepts := by
  cases a with
  | sigterm => simp [Action.replies, Action.accepts, step]
  | sigusr1 signalled =>
    obtain rfl : signalled = true := hd
    simp [Action.replies, Action.accepts, step]
  | test =>
    rw [Guard] at hg
    cases ht : s.terminated <;>
      simp [hg, Action.replies, Action.accepts, step, ServerPc.serving, ht]
  | recvfrom r =>
    rw [Guard] at hg
    rcases r with ⟨src, request⟩ | _ | _
    · have hsrc : ipv4 src = true := hd
      simp [hg, hsrc, Action.replies, Action.accepts, Returned.toList, step, ServerPc.serving]
    · simp [hg, Action.replies, Action.accepts, Returned.toList, step, ServerPc.serving]
    · simp [hg, Action.replies, Action.accepts, Returned.toList, step, ServerPc.serving]
  | send src request r =>
    rw [Guard] at hg
    simp [Echoes, hg, ServerPc.replying, ServerPc.serving] at hs
  | recv src request r =>
    rw [Guard] at hg
    simp [Echoes, hg, ServerPc.replying, ServerPc.serving] at hs
  | sendto src request packet r =>
    rw [Guard] at hg
    obtain rfl : r = .ok () := hd
    simp [hg, Action.replies, Action.accepts, step, ServerPc.serving]

namespace Exchange

theorem outstanding_send (src' : A) (request : Datagram) :
    (s.step ipv4 (.send src' request)).outstanding src =
      s.outstanding src ++ (ExchangeLabel.send src' request).sentBy src := by
  have hnew : ofSource src [(src', request)] = (ExchangeLabel.send src' request).sentBy src := by
    by_cases hsrc : src' = src <;> simp [ofSource, ExchangeLabel.sentBy, hsrc]
  rw [outstanding, outstanding, step, ← List.append_assoc s.server.pc.serving, ofSource_append,
    hnew, List.append_assoc]

theorem outstanding_recv {response : Datagram} {src' : A} (hg : s.Guard (.recv src' response)) :
    (ExchangeLabel.recv src' response).receivedBy src ++
      (s.step ipv4 (.recv src' response)).outstanding src = s.outstanding src := by
  by_cases hsrc : src' = src
  · subst hsrc
    have hqueue : response :: (s.responses src').drop 1 = s.responses src' :=
      List.prefix_iff_eq_append.1 hg
    simp only [outstanding, step, ExchangeLabel.receivedBy, if_true, Function.update_self]
    rw [← List.append_assoc, List.singleton_append, hqueue]
  · simp only [outstanding, step, ExchangeLabel.receivedBy, if_neg hsrc,
      Function.update_of_ne (Ne.symm hsrc), List.nil_append]

/-- A request that the server takes is the first one of those that wait. -/
theorem outstanding_eq {a : Action A} (hg : s.Guard (.server a)) :
    s.outstanding src = s.responses src ++ (ofSource src (s.server.pc.serving ++ a.accepts) ++
      ofSource src (s.requests.drop a.accepts.length)) := by
  rw [outstanding, ← ofSource_append, List.append_assoc, List.prefix_iff_eq_append.1 hg.2]

/-- What a step of the server makes of a client's part of what it serves. -/
theorem outstanding_server {a : Action A} (hs : s.server.Echoes) (hg : s.Guard (.server a)) :
    (s.step ipv4 (.server a)).outstanding src = s.responses src ++
      (ofSource src ((a.replies.map fun r => (r.src, r.request)) ++
        (s.server.step false ipv4 a).pc.serving) ++
      ofSource src (s.requests.drop a.accepts.length)) := by
  simp only [outstanding, step, ofSource_append, hs.sends_eq hg.1, List.append_assoc]

/-- What a step makes of what is outstanding for a client. -/
theorem outstanding_step (hs : s.server.Echoes) (hg : s.Guard l) :
    l.receivedBy src ++ (s.step ipv4 l).outstanding src <+ s.outstanding src ++ l.sentBy src := by
  cases l with
  | send src' request => exact (outstanding_send src' request) ▸ .refl _
  | recv src' response => exact (outstanding_recv hg).symm ▸ List.sublist_append_left _ _
  | server a =>
    have hserving := ofSource_sublist src (Server.serving_step false ipv4 hg.1)
    simp only [ExchangeLabel.receivedBy, ExchangeLabel.sentBy, List.nil_append, List.append_nil]
    rw [outstanding_server hs hg, outstanding_eq hg]
    exact (List.Sublist.refl _).append (hserving.append (.refl _))
  | loseRequests kept =>
    simp only [ExchangeLabel.receivedBy, ExchangeLabel.sentBy, List.nil_append, List.append_nil]
    exact (List.Sublist.refl _).append (ofSource_sublist src ((List.Sublist.refl _).append hg))
  | loseResponses src' kept =>
    simp only [ExchangeLabel.receivedBy, ExchangeLabel.sentBy, List.nil_append, List.append_nil]
    refine List.Sublist.append ?_ (.refl _)
    by_cases hsrc : src = src'
    · subst hsrc
      simpa [step] using show kept <+ s.responses src from hg
    · simp [step, hsrc]

/-- A step which delivers keeps it. -/
theorem outstanding_step_of_delivers (hs : s.server.Echoes) (hg : s.Guard l)
    (hd : Delivers ipv4 l) :
    l.receivedBy src ++ (s.step ipv4 l).outstanding src = s.outstanding src ++ l.sentBy src := by
  cases l with
  | send src' request => exact outstanding_send src' request
  | recv src' response => exact (outstanding_recv hg).trans (List.append_nil _).symm
  | server a =>
    simp only [ExchangeLabel.receivedBy, ExchangeLabel.sentBy, List.nil_append, List.append_nil]
    rw [outstanding_server hs hg, outstanding_eq hg, Server.serving_step_of_delivers hs hg.1 hd]
  | loseRequests kept => exact hd.elim
  | loseResponses src' kept => exact hd.elim

end Exchange

/-- What a client has received, and then what is outstanding for it, has been sent by it, in this
    order. -/
theorem Run.exchanged (hr : (exchange ipv4).Run ls s) (src : A) :
    receivedBy src ls ++ s.outstanding src <+ sentBy src ls := by
  refine hr.invariant (P := fun ls s => receivedBy src ls ++ s.outstanding src <+ sentBy src ls)
    (fun s hs => ?_) fun ls s l s' hr hs hst => ?_
  · obtain rfl := Set.mem_singleton_iff.1 hs
    exact .refl _
  obtain ⟨hg, rfl⟩ := exchange_next_iff.1 hst
  rw [receivedBy_concat, sentBy_concat, List.append_assoc]
  calc receivedBy src ls ++ (l.receivedBy src ++ (s.step ipv4 l).outstanding src)
      <+ receivedBy src ls ++ (s.outstanding src ++ l.sentBy src) :=
        (List.Sublist.refl _).append (Exchange.outstanding_step (Run.server_echoes hr) hg)
    _ <+ sentBy src ls ++ l.sentBy src := by
        rw [← List.append_assoc]
        exact hs.append (.refl _)

/-- Nothing is missing when nothing has been lost. -/
theorem Run.delivered (hr : (exchange ipv4).Run ls s)
    (hd : ∀ l ∈ ls, Exchange.Delivers ipv4 l) (src : A) :
    receivedBy src ls ++ s.outstanding src = sentBy src ls := by
  revert hd
  refine hr.invariant (P := fun ls s => (∀ l ∈ ls, Exchange.Delivers ipv4 l) →
    receivedBy src ls ++ s.outstanding src = sentBy src ls)
    (fun s hs _ => ?_) fun ls s l s' hr hs hst hd => ?_
  · obtain rfl := Set.mem_singleton_iff.1 hs
    rfl
  obtain ⟨hg, rfl⟩ := exchange_next_iff.1 hst
  have hs := hs fun l hl => hd l (List.mem_append_left _ hl)
  have hdl := hd l (List.mem_append_right _ (List.mem_singleton_self l))
  rw [receivedBy_concat, sentBy_concat, List.append_assoc,
    Exchange.outstanding_step_of_delivers (Run.server_echoes hr) hg hdl, ← List.append_assoc, hs]

/-- A client of a server gets its own requests back, each at most once and in order, whatever
    the other clients send and whatever is lost, and however the server is interrupted. When
    nothing has been lost, those which it has not got back are outstanding. -/
theorem receives_own_requests (hr : (exchange ipv4).Run ls s) (src : A) :
    receivedBy src ls <+ sentBy src ls ∧
    ((∀ l ∈ ls, Exchange.Delivers ipv4 l) →
      receivedBy src ls ++ s.outstanding src = sentBy src ls) :=
  ⟨(List.sublist_append_left _ _).trans (Run.exchanged hr src), fun hd => Run.delivered hr hd src⟩

/-- A request of one byte, to run examples. -/
def Datagram.request (byte : UInt8) : Datagram := ⟨[byte], (by decide : 1 ≤ sizeofBuffer), 0⟩

/-- Two clients with a server which is interrupted: the first response to the second client is
    lost. -/
theorem receives_own_requests_two_clients :
    ∃ s, (exchange fun _ : ℕ => true).Run
      [.send 1 (.request 97), .send 2 (.request 98), .send 2 (.request 99), .server .test,
        .server (.recvfrom (.ok (1, .request 97))), .server (.sigusr1 true),
        .server (.sendto 1 (.request 97) (.request 97) (.ok ())), .server .test,
        .server (.recvfrom .eintr), .server .test,
        .server (.recvfrom (.ok (2, .request 98))),
        .server (.sendto 2 (.request 98) (.request 98) (.ok ())), .loseResponses 2 [],
        .server .test, .server (.recvfrom (.ok (2, .request 99))),
        .server (.sendto 2 (.request 99) (.request 99) (.ok ())), .recv 2 (.request 99),
        .recv 1 (.request 97)] s ∧
      [Datagram.request 99] <+ [.request 98, .request 99] := by
  have hr : (exchange fun _ : ℕ => true).Run
      [.send 1 (.request 97), .send 2 (.request 98), .send 2 (.request 99), .server .test,
        .server (.recvfrom (.ok (1, .request 97))), .server (.sigusr1 true),
        .server (.sendto 1 (.request 97) (.request 97) (.ok ())), .server .test,
        .server (.recvfrom .eintr), .server .test,
        .server (.recvfrom (.ok (2, .request 98))),
        .server (.sendto 2 (.request 98) (.request 98) (.ok ())), .loseResponses 2 [],
        .server .test, .server (.recvfrom (.ok (2, .request 99))),
        .server (.sendto 2 (.request 99) (.request 99) (.ok ())), .recv 2 (.request 99),
        .recv 1 (.request 97)] _ :=
    run_of_exec rfl rfl
  exact ⟨_, hr, (receives_own_requests hr 2).1⟩

end RealtimeTests
