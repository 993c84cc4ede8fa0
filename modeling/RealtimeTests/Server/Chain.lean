import RealtimeTests.Server

/-!
# Chained servers

Clients, a server which is chained, and its subserver, which is not. They exchange
datagrams by queues: of the requests, of the requests forwarded to the subserver, and of
its responses. Requests are numbered in the order in which they are sent.

The server expects the next response to be the one to the request that it has
forwarded. So it must not give up on a response which is still to come: then all the
later requests get the response to an earlier one (`reply_of_other_client`).

* `Run.serving`: requests are replied to in the order in which they are accepted;
* `Run.echoes`: the subserver sends back what it gets;
* `Aligned.step`: what is in flight is at most the response that the server waits for, as long as
  it does not give up on one (`Server.Undisturbed`);
* `replies_own_response`: then the replies are the responses to their requests.
-/

namespace RealtimeTests

open Lts
open scoped List

/-- The server and its subserver, and what is in the queues between the parties. -/
structure Chain (A : Type*) where
  server : Server A
  subserver : Server Unit
  requests : List (A × Datagram)
  forwarded : List Datagram
  responses : List Datagram
  /-- The number of requests sent so far. -/
  sent : ℕ
  deriving DecidableEq

/-- A request is sent by a client, or one of the servers takes a step. -/
inductive ChainLabel (A : Type*)
  | request (src : A) (request : Datagram)
  | server (a : Action A)
  | subserver (a : Action Unit)
  deriving DecidableEq

variable {A : Type*}

namespace Chain

/-- The servers at the beginning of their loops, and empty queues. -/
def start (A : Type*) : Chain A := ⟨.start A, .start Unit, [], [], [], 0⟩

/-- What a step does. -/
def step (ipv4 : A → Bool) (s : Chain A) : ChainLabel A → Chain A
  | .request src request =>
    { s with requests := s.requests ++ [(src, request)], sent := s.sent + 1 }
  | .server a =>
    { s with
      server := s.server.step true ipv4 a
      requests := s.requests.drop a.accepts.length
      forwarded := s.forwarded ++ a.forwards
      responses := s.responses.drop a.receives.length }
  | .subserver a =>
    { s with
      subserver := s.subserver.step false (fun _ => true) a
      forwarded := s.forwarded.drop a.accepts.length
      responses := s.responses ++ a.replies.map Reply.packet }

/-- When a step can be taken: what is received is the head of a queue. -/
def Guard (s : Chain A) : ChainLabel A → Prop
  | .request _ request => request.origin = s.sent
  | .server a => s.server.Guard a ∧ a.accepts <+: s.requests ∧ a.receives <+: s.responses
  | .subserver a => s.subserver.Guard a ∧ a.accepts.map Prod.snd <+: s.forwarded

instance [DecidableEq A] (s : Chain A) : ∀ l, Decidable (s.Guard l)
  | .request _ _ => inferInstanceAs (Decidable (_ = _))
  | .server _ | .subserver _ => inferInstanceAs (Decidable (_ ∧ _))

/-- What the server has forwarded, and has not been returned to it: on the way to the subserver,
    there, and on the way back. -/
def inFlight (s : Chain A) : List Datagram :=
  s.responses ++ s.subserver.pc.serving.map Prod.snd ++ s.forwarded

end Chain

variable [DecidableEq A]

/-- The system of a chained server, its clients and its subserver. -/
def chainSystem (ipv4 : A → Bool) : Lts (Chain A) (ChainLabel A) where
  init := {.start A}
  next s l := if s.Guard l then some (s.step ipv4 l) else none

theorem chain_next_iff {ipv4 : A → Bool} {s s' : Chain A} {l : ChainLabel A} :
    (chainSystem ipv4).next s l = some s' ↔ s.Guard l ∧ s.step ipv4 l = s' := by
  simp [chainSystem]

/-! ## What has been exchanged -/

namespace ChainLabel

/-- The request that the server accepts. -/
def accepts : ChainLabel A → List (A × Datagram)
  | server a => a.accepts
  | _ => []

/-- The response that the subserver returns. -/
def returns : ChainLabel A → List Datagram
  | subserver a => a.replies.map Reply.packet
  | _ => []

/-- The reply that the server sends. -/
def replies : ChainLabel A → List (Reply A)
  | server a => a.replies
  | _ => []

end ChainLabel

/-- The requests that the server has accepted, in order. -/
def accepted (ls : List (ChainLabel A)) : List (A × Datagram) := ls.flatMap ChainLabel.accepts

/-- The responses that the subserver has returned, in order. -/
def returned (ls : List (ChainLabel A)) : List Datagram := ls.flatMap ChainLabel.returns

/-- The replies that the server has sent, in order. -/
def replies (ls : List (ChainLabel A)) : List (Reply A) := ls.flatMap ChainLabel.replies

variable {ipv4 : A → Bool} {ls : List (ChainLabel A)} {s : Chain A} {l : ChainLabel A}

omit [DecidableEq A] in
@[simp]
theorem accepted_concat : accepted (ls ++ [l]) = accepted ls ++ l.accepts := by
  simp [accepted]

omit [DecidableEq A] in
@[simp]
theorem returned_concat : returned (ls ++ [l]) = returned ls ++ l.returns := by
  simp [returned]

omit [DecidableEq A] in
@[simp]
theorem replies_concat : replies (ls ++ [l]) = replies ls ++ l.replies := by
  simp [replies]

/-! ## Order -/

/-- The requests accepted and those in the queue are numbered. -/
theorem Run.origins (hr : (chainSystem ipv4).Run ls s) :
    (accepted ls ++ s.requests).map (fun x => x.2.origin) = List.range s.sent := by
  refine hr.invariant
    (P := fun ls s => (accepted ls ++ s.requests).map (fun x => x.2.origin) = List.range s.sent)
    (fun s hs => ?_) fun ls s l s' _ hs hst => ?_
  · obtain rfl := Set.mem_singleton_iff.1 hs
    rfl
  obtain ⟨hg, rfl⟩ := chain_next_iff.1 hst
  rw [accepted_concat]
  cases l with
  | request src request =>
    rw [Chain.Guard] at hg
    rw [List.map_append] at hs
    simp [ChainLabel.accepts, Chain.step, List.range_succ, ← hs, hg]
  | server a =>
    -- What is accepted is taken from the queue.
    have hqueue := List.prefix_iff_eq_append.1 hg.2.1
    rw [ChainLabel.accepts, Chain.step, List.append_assoc, hqueue, hs]
  | subserver a => simpa [ChainLabel.accepts, Chain.step] using hs

/-- The requests replied to, and then the one which is being served, are requests accepted. -/
theorem Run.serving (hr : (chainSystem ipv4).Run ls s) :
    ((replies ls).map fun r => (r.src, r.request)) ++ s.server.pc.serving <+ accepted ls := by
  refine hr.invariant (P := fun ls s =>
    ((replies ls).map fun r => (r.src, r.request)) ++ s.server.pc.serving <+ accepted ls)
    (fun s hs => ?_) fun ls s l s' _ hs hst => ?_
  · obtain rfl := Set.mem_singleton_iff.1 hs
    exact .refl _
  obtain ⟨hg, rfl⟩ := chain_next_iff.1 hst
  rw [accepted_concat, replies_concat]
  cases l with
  | server a =>
    have hstep := Server.serving_step true ipv4 hg.1
    calc ((replies ls ++ a.replies).map fun r => (r.src, r.request)) ++
          (s.server.step true ipv4 a).pc.serving
        = ((replies ls).map fun r => (r.src, r.request)) ++
            ((a.replies.map fun r => (r.src, r.request)) ++
              (s.server.step true ipv4 a).pc.serving) := by
          rw [List.map_append, List.append_assoc]
      _ <+ ((replies ls).map fun r => (r.src, r.request)) ++ (s.server.pc.serving ++ a.accepts) :=
          (List.Sublist.refl _).append hstep
      _ <+ accepted ls ++ a.accepts := by
          rw [← List.append_assoc]
          exact hs.append (.refl _)
  | request src request => simpa [ChainLabel.accepts, ChainLabel.replies, Chain.step] using hs
  | subserver a => simpa [ChainLabel.accepts, ChainLabel.replies, Chain.step] using hs

/-- The subserver sends back what it gets. -/
theorem Run.echoes (hr : (chainSystem ipv4).Run ls s) : s.subserver.Echoes := by
  refine hr.state_invariant (P := fun s => s.subserver.Echoes) (fun s hs => ?_)
    fun s l s' hs hst => ?_
  · obtain rfl := Set.mem_singleton_iff.1 hs
    rfl
  obtain ⟨hg, rfl⟩ := chain_next_iff.1 hst
  cases l with
  | subserver a => exact (hs.step _ hg.1).1
  | request src request => exact hs
  | server a => exact hs

/-! ## Alternation -/

namespace Server

/-- Nothing makes the server give up on a response which is still to come: its `recv` is not
    interrupted, unless it has been terminated or nothing is in flight, and neither its `send` nor
    its `recv` fails otherwise. -/
def Undisturbed (s : Server A) (inFlight : List Datagram) : Action A → Prop
  | .send _ _ .error | .recv _ _ .error => False
  | .recv _ _ .eintr => s.terminated = true ∨ inFlight = []
  | _ => True

instance (s : Server A) (inFlight : List Datagram) : ∀ a, Decidable (s.Undisturbed inFlight a)
  | .send _ _ .error | .recv _ _ .error => isFalse id
  | .recv _ _ .eintr => inferInstanceAs (Decidable (_ ∨ _))
  | .sigterm | .sigusr1 _ | .test | .recvfrom _ | .send _ _ (.ok _) | .send _ _ .eintr
  | .recv _ _ (.ok _) | .sendto _ _ _ _ => isTrue trivial

/-- The server does not serve another request. -/
def Over (s : Server A) : Prop := s.pc = .done ∨ s.pc = .test ∧ s.terminated = true

end Server

/-- The response that the server waits for. -/
def ServerPc.awaited : ServerPc A → List Datagram
  | response _ request => [request]
  | _ => []

/-- What is in flight is at most the response that the server waits for, and what it is about to
    send is the request. -/
structure Aligned (s : Server A) (inFlight : List Datagram) : Prop where
  inFlight : s.Over ∨ inFlight <+ s.pc.awaited
  replying : ∀ r ∈ s.pc.replying, r.packet = r.request

section Aligned

omit [DecidableEq A]

variable {s : Server A} {a : Action A} {src : A} {request : Datagram}
  {inFlight inFlight' : List Datagram}

/-- Nothing is in flight when the server does not wait for a response. -/
theorem Aligned.eq_nil (hs : Aligned s inFlight) (hover : ¬s.Over) (hawaited : s.pc.awaited = []) :
    inFlight = [] := by
  have := hs.inFlight.resolve_left hover
  rwa [hawaited, List.sublist_nil] at this

/-- A request is forwarded. -/
theorem Aligned.send (hs : Aligned s inFlight) {r : Returned Unit}
    (hg : s.Guard (.send src request r))
    (hflight : inFlight' = inFlight ++ (Action.send src request r).forwards)
    (hsafe : s.Undisturbed inFlight (.send src request r)) :
    Aligned (s.step true ipv4 (.send src request r)) inFlight' := by
  rw [Server.Guard] at hg
  obtain rfl := hs.eq_nil (by simp [Server.Over, hg]) (by rw [hg]; rfl)
  rw [hflight]
  cases r with
  | ok x => exact ⟨.inr (.refl _), by simp [Server.step, ServerPc.replying]⟩
  | eintr =>
    exact ⟨.inr (List.nil_sublist _), by simp [Server.step, subserverSendRecv, ServerPc.replying]⟩
  | error => exact hsafe.elim

/-- A response is received: it can only be the one which is awaited. -/
theorem Aligned.recv (hs : Aligned s inFlight) {r : Returned Datagram}
    (hg : s.Guard (.recv src request r)) (hflight : r.toList ++ inFlight' = inFlight)
    (hsafe : s.Undisturbed inFlight (.recv src request r)) :
    Aligned (s.step true ipv4 (.recv src request r)) inFlight' := by
  rw [Server.Guard] at hg
  have hle := hs.inFlight.resolve_left (by simp [Server.Over, hg])
  rw [hg, ServerPc.awaited, ← hflight] at hle
  cases r with
  | ok packet =>
    -- Nothing else was in flight.
    have hlen := hle.length_le
    obtain rfl : inFlight' = [] := by simpa [Returned.toList] using hlen
    obtain rfl : packet = request := by simpa [Returned.toList] using hle
    exact ⟨.inr (List.nil_sublist _), by simp [Server.step, subserverSendRecv, ServerPc.replying]⟩
  | eintr =>
    refine ⟨?_, by simp [Server.step, subserverSendRecv, ServerPc.replying]⟩
    rcases hsafe with ht | rfl
    · exact .inl (.inr ⟨by simp [Server.step, subserverSendRecv], ht⟩)
    · obtain rfl := (List.append_eq_nil_iff.1 hflight).2
      exact .inr (List.nil_sublist _)
  | error => exact hsafe.elim

/-- The loop continues or ends. -/
theorem Aligned.test (hs : Aligned s inFlight) (hg : s.Guard .test) :
    Aligned (s.step true ipv4 .test) inFlight := by
  rw [Server.Guard] at hg
  cases ht : s.terminated with
  | true =>
    exact ⟨.inl (.inl (by simp [Server.step, ht])), by simp [Server.step, ht, ServerPc.replying]⟩
  | false =>
    obtain rfl := hs.eq_nil (by simp [Server.Over, hg, ht]) (by rw [hg]; rfl)
    exact ⟨.inr (List.nil_sublist _), by simp [Server.step, ht, ServerPc.replying]⟩

/-- A step of the server, which adds what it forwards to what is in flight, and takes what it
    receives. -/
theorem Aligned.step (hs : Aligned s inFlight) (hg : s.Guard a)
    (hflight : a.receives ++ inFlight' = inFlight ++ a.forwards)
    (hsafe : s.Undisturbed inFlight a) : Aligned (s.step true ipv4 a) inFlight' := by
  have hsilent (hreceives : a.receives = []) (hforwards : a.forwards = []) :
      inFlight' = inFlight := by simpa [hreceives, hforwards] using hflight
  cases a with
  | sigterm =>
    obtain rfl := hsilent rfl rfl
    exact ⟨hs.inFlight.imp_left fun hover => hover.imp id fun ⟨htest, _⟩ => ⟨htest, rfl⟩,
      hs.replying⟩
  | sigusr1 signalled =>
    obtain rfl := hsilent rfl rfl
    cases signalled with
    | false => exact ⟨.inl (.inl rfl), by simp [Server.step, ServerPc.replying]⟩
    | true => exact hs
  | test =>
    obtain rfl := hsilent rfl rfl
    exact hs.test hg
  | recvfrom r =>
    obtain rfl := hsilent rfl rfl
    rw [Server.Guard] at hg
    obtain rfl := hs.eq_nil (by simp [Server.Over, hg]) (by rw [hg]; rfl)
    refine ⟨.inr (List.nil_sublist _), ?_⟩
    rcases r with ⟨src, request⟩ | _ | _
    · simp only [Server.step]
      split_ifs <;> simp [ServerPc.replying]
    · simp [Server.step, ServerPc.replying]
    · simp [Server.step, ServerPc.replying]
  | send src request r => exact hs.send hg hflight hsafe
  | recv src request r => exact hs.recv hg (hflight.trans (List.append_nil _)) hsafe
  | sendto src request packet r =>
    obtain rfl := hsilent rfl (by cases r <;> rfl)
    rw [Server.Guard] at hg
    obtain rfl := hs.eq_nil (by simp [Server.Over, hg]) (by rw [hg]; rfl)
    exact ⟨.inr (List.nil_sublist _), by simp [Server.step, ServerPc.replying]⟩

/-- What is sent is what was about to be sent. -/
theorem Server.mem_replying (hg : s.Guard a) : ∀ r ∈ a.replies, r ∈ s.pc.replying := by
  cases a with
  | sendto src request packet r =>
    rw [Server.Guard] at hg
    cases r <;> simp [hg, Action.replies, ServerPc.replying]
  | _ => simp [Action.replies]

/-- What the server is about to send has been received, if it is undisturbed. -/
theorem Server.replying_step (hsafe : s.Undisturbed inFlight a) :
    ∀ r ∈ (s.step true ipv4 a).pc.replying, r ∈ s.pc.replying ∨ r.packet ∈ a.receives := by
  cases a with
  | sigterm => exact fun r hr => .inl hr
  | sigusr1 signalled =>
    cases signalled with
    | false => simp [Server.step, ServerPc.replying]
    | true => exact fun r hr => .inl hr
  | test => cases ht : s.terminated <;> simp [Server.step, ServerPc.replying, ht]
  | recvfrom r =>
    rcases r with ⟨src, request⟩ | _ | _
    · simp only [Server.step, if_true]
      split_ifs <;> simp [ServerPc.replying]
    · simp [Server.step, ServerPc.replying]
    · simp [Server.step, ServerPc.replying]
  | send src request r =>
    cases r with
    | error => exact hsafe.elim
    | _ => simp [Server.step, subserverSendRecv, ServerPc.replying]
  | recv src request r =>
    cases r with
    | error => exact hsafe.elim
    | _ =>
      simp [Server.step, subserverSendRecv, ServerPc.replying, Action.receives, Returned.toList]
  | sendto src request packet r => simp [Server.step, ServerPc.replying]

end Aligned

/-! ## The chain -/

/-- The server of the chain is undisturbed. -/
def Chain.Undisturbed (s : Chain A) : ChainLabel A → Prop
  | .server a => s.server.Undisturbed s.inFlight a
  | _ => True

instance (s : Chain A) : ∀ l, Decidable (s.Undisturbed l)
  | .server _ => inferInstanceAs (Decidable (Server.Undisturbed _ _ _))
  | .request _ _ | .subserver _ => isTrue trivial

section Steps

omit [DecidableEq A]

/-- The subserver only moves what is in flight, or loses it. -/
theorem inFlight_step_subserver {a : Action Unit} (hg : s.Guard (.subserver a))
    (hs : s.subserver.Echoes) :
    (s.step ipv4 (.subserver a)).inFlight <+ s.inFlight := by
  -- What the subserver returns are the requests that it has served.
  have hserving := (Server.serving_step false (fun _ => true) hg.1).map Prod.snd
  obtain ⟨-, hecho⟩ := hs.step (fun _ => true) hg.1
  have hreplies : a.replies.map Reply.packet =
      (a.replies.map fun r => (r.src, r.request)).map Prod.snd := by
    rw [List.map_map]
    exact List.map_congr_left hecho
  have hqueue := List.prefix_iff_eq_append.1 hg.2
  rw [List.length_map] at hqueue
  rw [List.map_append, ← hreplies, List.map_append] at hserving
  calc (s.step ipv4 (.subserver a)).inFlight
    _ = s.responses ++ (a.replies.map Reply.packet ++
          (s.subserver.step false (fun _ => true) a).pc.serving.map Prod.snd) ++
          s.forwarded.drop a.accepts.length := by
        simp only [Chain.inFlight, Chain.step, List.append_assoc]
    _ <+ s.responses ++ (s.subserver.pc.serving.map Prod.snd ++ a.accepts.map Prod.snd) ++
          s.forwarded.drop a.accepts.length :=
        ((List.Sublist.refl _).append hserving).append (.refl _)
    _ = s.inFlight := by
        rw [Chain.inFlight, ← List.append_assoc, List.append_assoc, hqueue]

/-- The server adds what it forwards to what is in flight, and takes what it receives. -/
theorem inFlight_step_server {a : Action A} (hg : s.Guard (.server a)) :
    a.receives ++ (s.step ipv4 (.server a)).inFlight = s.inFlight ++ a.forwards := by
  have hqueue := List.prefix_iff_eq_append.1 hg.2.2
  simp only [Chain.inFlight, Chain.step]
  rw [← List.append_assoc, ← List.append_assoc, ← List.append_assoc, hqueue]

/-- A step of the chain. -/
theorem aligned_step (hs : Aligned s.server s.inFlight) (hecho : s.subserver.Echoes)
    (hg : s.Guard l) (hsafe : s.Undisturbed l) :
    Aligned (s.step ipv4 l).server (s.step ipv4 l).inFlight := by
  cases l with
  | request src request => exact hs
  | server a => exact hs.step hg.1 (inFlight_step_server hg) hsafe
  | subserver a =>
    exact ⟨hs.inFlight.imp_right (inFlight_step_subserver hg hecho).trans, hs.replying⟩

end Steps

/-- The replies are the responses to their requests. -/
structure Answered (ls : List (ChainLabel A)) (s : Chain A) : Prop where
  aligned : Aligned s.server s.inFlight
  responses : ∀ d ∈ s.responses, d ∈ returned ls
  replying : ∀ r ∈ s.server.pc.replying, r.packet ∈ returned ls
  sent : ∀ r ∈ replies ls, r.packet ∈ returned ls ∧ r.packet = r.request

omit [DecidableEq A] in
theorem Answered.step (hs : Answered ls s) (hecho : s.subserver.Echoes) (hg : s.Guard l)
    (hsafe : s.Undisturbed l) : Answered (ls ++ [l]) (s.step ipv4 l) := by
  have haligned : Aligned (s.step ipv4 l).server (s.step ipv4 l).inFlight :=
    aligned_step hs.aligned hecho hg hsafe
  cases l with
  | request src request =>
    have hreturned : returned (ls ++ [.request src request]) = returned ls := by
      simp [ChainLabel.returns]
    refine ⟨haligned, hreturned ▸ hs.responses, hreturned ▸ hs.replying, fun r hr => ?_⟩
    rw [hreturned]
    exact hs.sent r (by simpa [ChainLabel.replies] using hr)
  | server a =>
    have hreturned : returned (ls ++ [.server a]) = returned ls := by simp [ChainLabel.returns]
    rw [Chain.Guard] at hg
    refine ⟨haligned, fun d hd => ?_, fun r hr => ?_, fun r hr => ?_⟩
    · rw [hreturned]
      exact hs.responses d (List.mem_of_mem_drop hd)
    · rw [hreturned]
      exact (Server.replying_step hsafe r hr).elim (hs.replying r) fun hd =>
        hs.responses _ (hg.2.2.subset hd)
    · rw [replies_concat, List.mem_append] at hr
      rw [hreturned]
      refine hr.elim (hs.sent r) fun hr => ?_
      have hr := Server.mem_replying hg.1 r hr
      exact ⟨hs.replying r hr, hs.aligned.replying r hr⟩
  | subserver a =>
    have hreplies : replies (ls ++ [.subserver a]) = replies ls := by simp [ChainLabel.replies]
    rw [Chain.Guard] at hg
    refine ⟨haligned, fun d hd => ?_, fun r hr => ?_, fun r hr => ?_⟩
    · rw [returned_concat]
      exact List.mem_append.2 ((List.mem_append.1 hd).imp_left (hs.responses d))
    · rw [returned_concat]
      exact List.mem_append_left _ (hs.replying r hr)
    · rw [hreplies] at hr
      rw [returned_concat]
      exact (hs.sent r hr).imp_left (List.mem_append_left _)

theorem Run.answered (hr : ((chainSystem ipv4).guard Chain.Undisturbed).Run ls s) :
    Answered ls s := by
  refine hr.invariant (P := Answered) (fun s hs => ?_) fun ls s l s' hr hs hst => ?_
  · obtain rfl := Set.mem_singleton_iff.1 hs
    exact ⟨⟨.inr (.refl _), by simp [Chain.start, Server.start, ServerPc.replying]⟩,
      by simp [Chain.start], by simp [Chain.start, Server.start, ServerPc.replying],
      by simp [replies]⟩
  · -- The subserver echoes in every run, disturbed or not.
    obtain ⟨hsafe, hst⟩ := guard_next_iff.1 hst
    obtain ⟨hg, rfl⟩ := chain_next_iff.1 hst
    exact hs.step (Run.echoes hr.of_guard) hg hsafe

/-- A chained server which is undisturbed answers every client with its own request: what it
    sends to a source is the response that the subserver has returned to the request of that
    source, and every request accepted is answered at most once, in the order of acceptance. -/
theorem replies_own_response (hr : ((chainSystem ipv4).guard Chain.Undisturbed).Run ls s) :
    (∀ r ∈ replies ls, r.packet ∈ returned ls ∧ r.packet = r.request) ∧
    ((replies ls).map fun r => (r.src, r.request)) <+ accepted ls ∧
    ((replies ls).map fun r => r.request.origin).Pairwise (· < ·) := by
  have hsub : ((replies ls).map fun r => (r.src, r.request)) <+ accepted ls :=
    (List.sublist_append_left _ _).trans (Run.serving hr.of_guard)
  refine ⟨(Run.answered hr).sent, hsub, ?_⟩
  -- The requests replied to are some of those numbered, in their order.
  have horigins := (hsub.trans (List.sublist_append_left _ s.requests)).map fun x => x.2.origin
  rw [Run.origins hr.of_guard, List.map_map] at horigins
  exact List.pairwise_lt_range.sublist horigins

/-- A datagram of one byte, to run examples. -/
def Datagram.ofByte (byte : UInt8) (origin : ℕ) : Datagram :=
  ⟨[byte], by simp [sizeofBuffer], origin⟩

/-- Two clients are served, with interruptions of `recvfrom`, of the subserver, and of `send`,
    which drops the first request. -/
theorem replies_own_response_two_clients :
    ∃ s, ((chainSystem fun _ : ℕ => true).guard Chain.Undisturbed).Run
      [.request 1 (.ofByte 97 0), .request 2 (.ofByte 98 1),
        .server .test, .server (.recvfrom .eintr), .server .test,
        .server (.recvfrom (.ok (1, .ofByte 97 0))), .server (.send 1 (.ofByte 97 0) .eintr),
        .server .test, .server (.recvfrom (.ok (2, .ofByte 98 1))),
        .server (.send 2 (.ofByte 98 1) (.ok ())), .subserver .test, .subserver (.recvfrom .eintr),
        .subserver .test, .subserver (.recvfrom (.ok ((), .ofByte 98 1))),
        .subserver (.sendto () (.ofByte 98 1) (.ofByte 98 1) (.ok ())),
        .server (.recv 2 (.ofByte 98 1) (.ok (.ofByte 98 1))),
        .server (.sendto 2 (.ofByte 98 1) (.ofByte 98 1) (.ok ()))] s ∧
      ([(2, .ofByte 98 1)] : List (ℕ × Datagram)) <+ [(1, .ofByte 97 0), (2, .ofByte 98 1)] := by
  have hr : ((chainSystem fun _ : ℕ => true).guard Chain.Undisturbed).Run
      [.request 1 (.ofByte 97 0), .request 2 (.ofByte 98 1),
        .server .test, .server (.recvfrom .eintr), .server .test,
        .server (.recvfrom (.ok (1, .ofByte 97 0))), .server (.send 1 (.ofByte 97 0) .eintr),
        .server .test, .server (.recvfrom (.ok (2, .ofByte 98 1))),
        .server (.send 2 (.ofByte 98 1) (.ok ())), .subserver .test, .subserver (.recvfrom .eintr),
        .subserver .test, .subserver (.recvfrom (.ok ((), .ofByte 98 1))),
        .subserver (.sendto () (.ofByte 98 1) (.ofByte 98 1) (.ok ())),
        .server (.recv 2 (.ofByte 98 1) (.ok (.ofByte 98 1))),
        .server (.sendto 2 (.ofByte 98 1) (.ofByte 98 1) (.ok ()))] _ :=
    run_of_exec rfl rfl
  exact ⟨_, hr, (replies_own_response hr).2.1⟩

/-- A signal interrupts the `recv` of the server after the request of the first client has been
    forwarded: the second client is sent the response to the first one. -/
theorem reply_of_other_client :
    ∃ ls s, (chainSystem fun _ : ℕ => true).Run ls s ∧
      ls = [.request 1 (.ofByte 97 0), .request 2 (.ofByte 98 1), .server .test,
        .server (.recvfrom (.ok (1, .ofByte 97 0))), .server (.send 1 (.ofByte 97 0) (.ok ())),
        .server (.sigusr1 true), .server (.recv 1 (.ofByte 97 0) .eintr), .subserver .test,
        .subserver (.recvfrom (.ok ((), .ofByte 97 0))),
        .subserver (.sendto () (.ofByte 97 0) (.ofByte 97 0) (.ok ())), .server .test,
        .server (.recvfrom (.ok (2, .ofByte 98 1))), .server (.send 2 (.ofByte 98 1) (.ok ())),
        .server (.recv 2 (.ofByte 98 1) (.ok (.ofByte 97 0))),
        .server (.sendto 2 (.ofByte 98 1) (.ofByte 97 0) (.ok ()))] ∧
      accepted ls = [(1, .ofByte 97 0), (2, .ofByte 98 1)] ∧
      replies ls = [⟨2, .ofByte 98 1, .ofByte 97 0⟩] :=
  ⟨_, _, run_of_exec rfl rfl, rfl, rfl, rfl⟩

end RealtimeTests
