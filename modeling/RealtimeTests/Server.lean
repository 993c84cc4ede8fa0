import RealtimeTests.Host
import RealtimeTests.Lts

/-!
# Servers

`bwi-client_server/server.c`: a server takes a request from its socket and sends it
back to the client. When it is started with `-s` (it is *chained*), it first
forwards the request to a subserver, and sends the response of the latter.

The steps of a server are its loop and `subserver_send_recv`, cut at the calls that
may block; what these return is in the action. A signal interrupts them with `EINTR`:
the handlers are installed without `SA_RESTART`. Serving takes no time, and the
bandwidth inheritance (BWI) is left out, as it does not touch the data.
-/

namespace RealtimeTests

/-- The size of `buffer`. -/
def sizeofBuffer : ℕ := 2 ^ 16 - 1

/-- A datagram: it fits the buffer. The number of the request that it comes from is for the
    specification, and no party looks at it. -/
@[ext]
structure Datagram where
  payload : Bytes
  length_le : payload.length ≤ sizeofBuffer
  origin : ℕ
  deriving DecidableEq

/-- What is in the buffer once `send_recv` has cleared it, up to the size of the datagram. -/
def Datagram.cleared (d : Datagram) : Datagram where
  payload := .replicate d.payload.length 0
  length_le := List.length_replicate.trans_le d.length_le
  origin := d.origin

/-- What a call on a socket returns: a value, or -1 with an `errno` which is `EINTR` or not. -/
inductive Returned (α : Type*)
  | ok (x : α)
  | eintr
  | error
  deriving DecidableEq

/-- What was received or sent, if the call did not fail. -/
def Returned.toList {α : Type*} : Returned α → List α
  | ok x => [x]
  | _ => []

/-- Where a server is, with `src_addr` and the content of `buffer`. From `forward` to `reply`
    it serves a request, which is the first datagram. -/
inductive ServerPc (A : Type*)
  /-- At the condition of the loop. -/
  | test
  /-- In `recvfrom`. -/
  | accept
  /-- In `send` of `send_recv`. -/
  | forward (src : A) (request : Datagram)
  /-- In `recv` of `send_recv`, with the buffer cleared. -/
  | response (src : A) (request : Datagram)
  /-- In `sendto`, with `packet` in the buffer. -/
  | reply (src : A) (request packet : Datagram)
  | done
  deriving DecidableEq

/-- The steps of a server. -/
inductive Action (A : Type*)
  | sigterm
  /-- `SIGUSR1`, whose handler exits if the subserver cannot be signalled, or does not change
      its scheduler in time. -/
  | sigusr1 (signalled : Bool)
  | test
  | recvfrom (r : Returned (A × Datagram))
  | send (src : A) (request : Datagram) (r : Returned Unit)
  | recv (src : A) (request : Datagram) (r : Returned Datagram)
  | sendto (src : A) (request packet : Datagram) (r : Returned Unit)
  deriving DecidableEq

/-- A server. -/
structure Server (A : Type*) where
  pc : ServerPc A
  terminated : Bool
  deriving DecidableEq

variable {A : Type*}

/-- The return value of `subserver_send_recv`, after the last call of `send_recv`. -/
def subserverSendRecv {α : Type*} : Returned α → ℤ
  | .eintr => 1
  | _ => 0

namespace Server

/-- A server at the beginning of its loop. -/
def start (A : Type*) : Server A := ⟨.test, false⟩

/-- What a step does. The source address is as long as `struct sockaddr_in` if `ipv4`. -/
def step (chained : Bool) (ipv4 : A → Bool) (s : Server A) : Action A → Server A
  | .sigterm => { s with terminated := true }
  | .sigusr1 signalled => if signalled then s else { s with pc := .done }
  | .test => { s with pc := if s.terminated then .done else .accept }
  | .recvfrom (.ok (src, request)) =>
    { s with
      pc :=
        if !ipv4 src then .test
        else if chained then .forward src request
        else .reply src request request }
  | .recvfrom _ => { s with pc := .test }
  | .send src request (.ok _) => { s with pc := .response src request }
  | .send src request r =>
    -- After another error than an interruption, the buffer still has the request.
    { s with pc := if subserverSendRecv r ≠ 0 then .test else .reply src request request }
  | .recv src request r =>
    { s with
      pc :=
        if subserverSendRecv r ≠ 0 then .test
        else
          match r with
          | .ok packet => .reply src request packet
          -- After another error than an interruption, it has been cleared.
          | _ => .reply src request request.cleared }
  | .sendto _ _ _ _ => { s with pc := .test }

/-- When a step can be taken, as far as the server is concerned. -/
def Guard (s : Server A) : Action A → Prop
  | .sigterm | .sigusr1 _ => True
  | .test => s.pc = .test
  | .recvfrom _ => s.pc = .accept
  | .send src request _ => s.pc = .forward src request
  | .recv src request _ => s.pc = .response src request
  | .sendto src request packet _ => s.pc = .reply src request packet

instance [DecidableEq A] (s : Server A) : ∀ a, Decidable (s.Guard a)
  | .sigterm | .sigusr1 _ => isTrue trivial
  | .test | .recvfrom _ | .send _ _ _ | .recv _ _ _ | .sendto _ _ _ _ =>
    inferInstanceAs (Decidable (_ = _))

end Server

/-! ## What is exchanged -/

/-- A reply of a server, with the request that it is sent for. -/
@[ext]
structure Reply (A : Type*) where
  src : A
  request : Datagram
  packet : Datagram
  deriving DecidableEq

namespace Action

/-- The request that is accepted. -/
def accepts : Action A → List (A × Datagram)
  | recvfrom r => r.toList
  | _ => []

/-- The request that is forwarded to the subserver. -/
def forwards : Action A → List Datagram
  | send _ request (.ok _) => [request]
  | _ => []

/-- The response that is received from the subserver. -/
def receives : Action A → List Datagram
  | recv _ _ r => r.toList
  | _ => []

/-- The reply that is sent. -/
def replies : Action A → List (Reply A)
  | sendto src request packet (.ok _) => [⟨src, request, packet⟩]
  | _ => []

end Action

namespace ServerPc

/-- The request that is being served. -/
def serving : ServerPc A → List (A × Datagram)
  | forward src request | response src request | reply src request _ => [(src, request)]
  | _ => []

/-- What is about to be sent to the client. -/
def replying : ServerPc A → List (Reply A)
  | reply src request packet => [⟨src, request, packet⟩]
  | _ => []

end ServerPc

namespace Server

open scoped List

variable (chained : Bool) (ipv4 : A → Bool) {s : Server A} {a : Action A}

/-- Requests are served one at a time, in the order in which they are accepted, and each one is
    replied to or dropped before the next one. -/
theorem serving_step (hg : s.Guard a) :
    (a.replies.map fun r => (r.src, r.request)) ++ (s.step chained ipv4 a).pc.serving <+
      s.pc.serving ++ a.accepts := by
  cases a with
  | sigterm => simp [Action.replies, Action.accepts, step]
  | sigusr1 signalled =>
    cases signalled <;> simp [Action.replies, Action.accepts, step, ServerPc.serving]
  | test =>
    cases ht : s.terminated <;> simp [Action.replies, Action.accepts, step, ServerPc.serving, ht]
  | recvfrom r =>
    rcases r with ⟨src, request⟩ | _ | _
    · simp only [Action.replies, Action.accepts, Returned.toList, step, List.map_nil,
        List.nil_append]
      split_ifs <;> simp [ServerPc.serving]
    · simp [Action.replies, Action.accepts, step, ServerPc.serving]
    · simp [Action.replies, Action.accepts, step, ServerPc.serving]
  | send src request r =>
    rw [Guard] at hg
    cases r <;>
      simp [hg, Action.replies, Action.accepts, step, ServerPc.serving, subserverSendRecv]
  | recv src request r =>
    rw [Guard] at hg
    cases r <;>
      simp [hg, Action.replies, Action.accepts, step, ServerPc.serving, subserverSendRecv]
  | sendto src request packet r =>
    rw [Guard] at hg
    cases r <;> simp [hg, Action.replies, Action.accepts, step, ServerPc.serving]

/-- The server sends the requests back. -/
def Echoes (s : Server A) : Prop :=
  s.pc.replying = s.pc.serving.map fun x => ⟨x.1, x.2, x.2⟩

/-- This is what a server does when it is not chained. -/
theorem Echoes.step (hs : s.Echoes) (hg : s.Guard a) :
    (s.step false ipv4 a).Echoes ∧ ∀ r ∈ a.replies, r.packet = r.request := by
  rw [Echoes] at hs
  cases a with
  | sigterm => exact ⟨hs, by simp [Action.replies]⟩
  | sigusr1 signalled =>
    cases signalled
    · exact ⟨rfl, by simp [Action.replies]⟩
    · exact ⟨hs, by simp [Action.replies]⟩
  | test =>
    refine ⟨?_, by simp [Action.replies]⟩
    cases ht : s.terminated <;> simp [Echoes, Server.step, ht, ServerPc.replying, ServerPc.serving]
  | recvfrom r =>
    refine ⟨?_, by simp [Action.replies]⟩
    rcases r with ⟨src, request⟩ | _ | _
    · simp only [Echoes, Server.step, Bool.false_eq_true, if_false]
      split_ifs <;> rfl
    · rfl
    · rfl
  | send src request r =>
    rw [Guard] at hg
    simp [hg, ServerPc.replying, ServerPc.serving] at hs
  | recv src request r =>
    rw [Guard] at hg
    simp [hg, ServerPc.replying, ServerPc.serving] at hs
  | sendto src request packet r =>
    rw [Guard] at hg
    obtain rfl : packet = request := by simpa [hg, ServerPc.replying, ServerPc.serving] using hs
    cases r <;> simp [Echoes, Server.step, ServerPc.replying, ServerPc.serving, Action.replies]

end Server

end RealtimeTests
