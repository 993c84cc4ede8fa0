import RealtimeTests.Server.Exchange

/-!
# A program which hogs a server

`bwi-client_server/server_hog.c`: it sends the same message to a server again and again, each time
after it has waited for the response, and counts the rounds. SIGUSR1 prints the counter, which is
meant as "the number of response received so far", and SIGTERM ends the loop.

The steps of the program are those of its loop and `send_recv`, cut at the calls that may block.
Its socket is `none`, and those of the other clients of the server are in `A`. The server is not
chained.

* `Run.program`, `Run.exchange`: a run of the system is one of the program and one of the exchange
  with the server;
* `Run.receives_message`: what it receives is its message;
* `Run.counted`: what it counts;
* `Run.stops`: what it does after SIGTERM;
* `hogs_server`: these in every run.
-/

namespace RealtimeTests

open Lts
open scoped List

namespace Hog

/-- `message_buf`, with its null. -/
def messageBuf : Bytes :=
  ("Hello! I am server hogger!".toList.map fun c => c.toNat.toUInt8) ++ [0]

/-- The message as a datagram. -/
def message : Datagram := ⟨messageBuf, by decide +kernel, 0⟩

/-- Where the program is, with what `send` and `recv` have returned. -/
inductive Pc
  /-- At the condition of the loop. -/
  | test
  | send
  | recv (sent : Returned ℕ)
  /-- After `send_recv`. -/
  | check (sent : Returned ℕ) (received : Returned Bytes)
  /-- It returns `EXIT_SUCCESS`. -/
  | done
  | failed (error : String)
  deriving DecidableEq

/-- The program. -/
structure State where
  pc : Pc
  terminated : Bool
  counter : ℕ
  deriving DecidableEq

/-- The steps of the program. -/
inductive Label
  | sigterm
  | sigusr1 (printed : ℕ)
  | test
  | send (r : Returned ℕ)
  | recv (r : Returned Datagram)
  | check
  deriving DecidableEq

/-- What is wrong with what `recv` has returned, unless it was interrupted. -/
def checkReceived : Returned Bytes → Option String
  | .error => some "Cannot retrieve server response"
  | .eintr => none
  | .ok response =>
    if response.length ≠ messageBuf.length then some "Server response is corrupted"
    else if messageBuf ≠ response then some "Request & server response do not match"
    else none

/-- What the program exits with after `send_recv`, if it does. -/
def checkReturned (received : Returned Bytes) : Returned ℕ → Option String
  | .error => some "Cannot send request"
  | .eintr => checkReceived received
  | .ok n =>
    if n ≠ messageBuf.length then some "Sent request is truncated" else checkReceived received

/-- What `recv` puts into `response_buf`, which is as long as the message. -/
def intoResponseBuf : Returned Datagram → Returned Bytes
  | .ok response => .ok (response.payload.take messageBuf.length)
  | .eintr => .eintr
  | .error => .error

namespace State

/-- What a step does. -/
def step (s : State) : Label → State
  | .sigterm => { s with terminated := true }
  | .sigusr1 _ => s
  | .test => { s with pc := if s.terminated then .done else .send }
  | .send r => { s with pc := .recv r }
  | .recv r =>
    match s.pc with
    | .recv sent => { s with pc := .check sent (intoResponseBuf r) }
    | _ => s
  | .check =>
    match s.pc with
    | .check sent received =>
      match checkReturned received sent with
      | some error => { s with pc := .failed error }
      | none => { s with pc := .test, counter := s.counter + 1 }
    | _ => s

/-- The process has not exited. -/
def Alive (s : State) : Prop :=
  match s.pc with
  | .done | .failed _ => False
  | _ => True

instance (s : State) : Decidable s.Alive := by
  unfold Alive
  split <;> infer_instance

/-- When a step can be taken, as far as the program is concerned: a datagram is sent as a whole
    or not at all, and the counter is an `int`. -/
def Guard (s : State) : Label → Prop
  | .sigterm => s.Alive
  | .sigusr1 printed => s.Alive ∧ printed = s.counter
  | .test => s.pc = .test
  | .send r => s.pc = .send ∧ ∀ n ∈ r.toList, n = messageBuf.length
  | .recv _ => ∃ sent, s.pc = .recv sent
  | .check => (∃ sent received, s.pc = .check sent received) ∧ s.counter < 2 ^ 31 - 1

instance (s : State) : ∀ l, Decidable (s.Guard l)
  | .sigterm => inferInstanceAs (Decidable s.Alive)
  | .test => inferInstanceAs (Decidable (_ = _))
  | .sigusr1 _ | .send _ => inferInstanceAs (Decidable (_ ∧ _))
  | .recv _ =>
    match h : s.pc with
    | .recv sent => .isTrue ⟨sent, h⟩
    | .test | .send | .check _ _ | .done | .failed _ =>
      .isFalse fun ⟨_, h'⟩ => nomatch h.symm.trans h'
  | .check =>
    match h : s.pc with
    | .check sent received =>
      decidable_of_iff (s.counter < 2 ^ 31 - 1) (and_iff_right ⟨sent, received, h⟩).symm
    | .test | .send | .recv _ | .done | .failed _ =>
      .isFalse fun ⟨⟨_, _, h'⟩, _⟩ => nomatch h.symm.trans h'

end State

/-- The program from the beginning of its loop on. -/
def program : Lts State Label where
  init := {⟨.test, false, 0⟩}
  next s l := if s.Guard l then some (s.step l) else none

theorem program_next_iff {s s' : State} {l : Label} :
    program.next s l = some s' ↔ s.Guard l ∧ s.step l = s' := by
  simp [program]

/-! ## What is counted -/

namespace Label

/-- The number of requests that a step sends. -/
@[simp]
def requests : Label → ℕ
  | send (.ok _) => 1
  | _ => 0

/-- The number of responses that a step receives. -/
@[simp]
def responses : Label → ℕ
  | recv (.ok _) => 1
  | _ => 0

/-- The number of times that a step has `recv` interrupted. -/
@[simp]
def interruptions : Label → ℕ
  | recv .eintr => 1
  | _ => 0

/-- The number of steps which a step is, but for signals. -/
@[simp]
def steps : Label → ℕ
  | sigterm | sigusr1 _ => 0
  | _ => 1

end Label

/-- The number of requests that have been sent. -/
def requests (ls : List Label) : ℕ := (ls.map Label.requests).sum

/-- The number of responses that have been received. -/
def responses (ls : List Label) : ℕ := (ls.map Label.responses).sum

/-- The number of times that `recv` has been interrupted. -/
def interruptions (ls : List Label) : ℕ := (ls.map Label.interruptions).sum

/-- The number of steps of the program, but for signals. -/
def steps (ls : List Label) : ℕ := (ls.map Label.steps).sum

namespace Pc

/-- How often `recv` has returned without an error since the last round was counted. -/
@[simp]
def uncounted : Pc → ℕ
  | check _ (.ok _) | check _ .eintr => 1
  | _ => 0

/-- How many requests may be without a response and without an interruption. -/
@[simp]
def unanswered : Pc → ℕ
  | recv _ | check _ .error | failed _ => 1
  | _ => 0

/-- How many steps are left when the program is to end. -/
@[simp]
def rank : Pc → ℕ
  | send => 4
  | recv _ => 3
  | check _ _ => 2
  | test => 1
  | done | failed _ => 0

/-- The program has exited with an error. -/
def Failed (pc : Pc) : Prop := ∃ e, pc = failed e

end Pc

variable {s s' : State} {l : Label} {ls : List Label}

/-- The counter after a number of requests, and of returns of `recv` without an error. -/
structure Counted (sent returned : ℕ) (s : State) : Prop where
  le : s.counter ≤ returned
  ge : returned ≤ s.counter + 1
  eq : ¬s.pc.Failed → s.counter + s.pc.uncounted = returned
  sent : sent ≤ returned + s.pc.unanswered

/-- A step which does not count anything. -/
theorem Counted.congr {sent returned : ℕ} (hs : Counted sent returned s)
    (hcounter : s'.counter = s.counter) (huncounted : s'.pc.uncounted = s.pc.uncounted)
    (hunanswered : s.pc.unanswered ≤ s'.pc.unanswered) (hfailed : s.pc.Failed → s'.pc.Failed) :
    Counted sent returned s' where
  le := hcounter ▸ hs.le
  ge := hcounter ▸ hs.ge
  eq h := by rw [hcounter, huncounted, hs.eq (mt hfailed h)]
  sent := hs.sent.trans (Nat.add_le_add_left hunanswered _)

/-- `recv` returns. -/
theorem Counted.recv {sent returned : ℕ} (hs : Counted sent returned s) {r : Returned Datagram}
    (hg : s.Guard (.recv r)) :
    Counted sent (returned + ((Label.recv r).responses + (Label.recv r).interruptions))
      (s.step (.recv r)) := by
  obtain ⟨n, hpc⟩ := hg
  have heq := hs.eq (by simp [hpc, Pc.Failed])
  have hsent := hs.sent
  simp only [hpc, Pc.uncounted, Pc.unanswered] at heq hsent
  cases r <;>
    refine ⟨?_, ?_, fun _ => ?_, ?_⟩ <;>
    simp [State.step, hpc, intoResponseBuf] <;> omega

/-- A round is counted, or the program exits. -/
theorem Counted.check {sent returned : ℕ} (hs : Counted sent returned s)
    (hg : s.Guard .check) : Counted sent returned (s.step .check) := by
  obtain ⟨⟨n, received, hpc⟩, -⟩ := hg
  have heq := hs.eq (by simp [hpc, Pc.Failed])
  have hsent := hs.sent
  simp only [hpc] at heq hsent
  simp only [State.step, hpc]
  cases hcheck : checkReturned received n with
  | some e =>
    refine ⟨hs.le, hs.ge, fun h => absurd ⟨e, rfl⟩ h, ?_⟩
    cases received <;> simp at hsent ⊢ <;> omega
  | none =>
    cases received with
    | error => cases n <;> simp [checkReturned, checkReceived] at hcheck; split_ifs at hcheck
    | _ =>
      simp only [Pc.uncounted, Pc.unanswered] at heq hsent
      exact ⟨heq.le, heq.ge.trans (by simp), fun _ => heq, hsent⟩

theorem Counted.step {sent returned : ℕ} (hs : Counted sent returned s) (hg : s.Guard l) :
    Counted (sent + l.requests) (returned + (l.responses + l.interruptions)) (s.step l) := by
  cases l with
  | sigterm => exact hs.congr rfl rfl le_rfl id
  | sigusr1 printed => exact hs
  | test =>
    rw [State.Guard] at hg
    refine hs.congr rfl ?_ ?_ fun ⟨e, he⟩ => nomatch hg.symm.trans he
    · cases ht : s.terminated <;> simp [State.step, hg, ht]
    · simp [hg]
  | send r =>
    obtain ⟨hpc, -⟩ := hg
    have heq := hs.eq (by simp [hpc, Pc.Failed])
    have hsent := hs.sent
    simp only [hpc, Pc.uncounted, Pc.unanswered] at heq hsent
    refine ⟨hs.le, hs.ge, fun _ => heq, ?_⟩
    cases r <;> simp [State.step] <;> omega
  | recv r => exact hs.recv hg
  | check => exact hs.check hg

/-- What the counter counts, in every run. -/
theorem Run.counted (hr : program.Run ls s) :
    Counted (requests ls) (responses ls + interruptions ls) s := by
  refine hr.invariant (P := fun ls s => Counted (requests ls) (responses ls + interruptions ls) s)
    (fun s hs => ?_) fun ls s l s' _ hs hst => ?_
  · obtain rfl := Set.mem_singleton_iff.1 hs
    exact ⟨le_rfl, Nat.zero_le _, fun _ => rfl, le_rfl⟩
  obtain ⟨hg, rfl⟩ := program_next_iff.1 hst
  have hstep := hs.step hg
  have hresponses : responses (ls ++ [l]) + interruptions (ls ++ [l]) =
      responses ls + interruptions ls + (l.responses + l.interruptions) := by
    simp only [responses, interruptions, List.map_append, List.map_singleton, List.sum_append,
      List.sum_singleton]
    omega
  have hrequests : requests (ls ++ [l]) = requests ls + l.requests := by
    simp [requests]
  rwa [hresponses, hrequests]

/-! ## How it ends -/

/-- What the program has sent and received, and what it exits with, when it receives nothing but
    its message. -/
structure Told (ls : List Label) (s : State) : Prop where
  sent : ∀ r, (s.pc = .recv r ∨ ∃ received, s.pc = .check r received) →
    (∀ n ∈ r.toList, n = messageBuf.length) ∧ (r = .error → .send .error ∈ ls)
  received : ∀ sent r, s.pc = .check sent r →
    (∀ response ∈ r.toList, response = messageBuf) ∧ (r = .error → .recv .error ∈ ls)
  failed : ∀ e, s.pc = .failed e → e = "Cannot send request" ∧ .send .error ∈ ls ∨
    e = "Cannot retrieve server response" ∧ .recv .error ∈ ls

/-- Nothing is wrong with the message. -/
theorem checkReceived_eq {r : Returned Bytes} (hr : ∀ response ∈ r.toList, response = messageBuf) :
    checkReceived r = if r = .error then some "Cannot retrieve server response" else none := by
  cases r with
  | ok response =>
    obtain rfl : response = messageBuf := hr response (List.mem_singleton_self _)
    simp [checkReceived]
  | eintr => rfl
  | error => rfl

theorem checkReturned_eq {sent : Returned ℕ} {r : Returned Bytes}
    (hsent : ∀ n ∈ sent.toList, n = messageBuf.length)
    (hr : ∀ response ∈ r.toList, response = messageBuf) :
    checkReturned r sent = if sent = .error then some "Cannot send request"
      else if r = .error then some "Cannot retrieve server response" else none := by
  cases sent with
  | ok n =>
    obtain rfl : n = messageBuf.length := hsent n (List.mem_singleton_self _)
    simp [checkReturned, checkReceived_eq hr]
  | eintr => simp [checkReturned, checkReceived_eq hr]
  | error => rfl

theorem mem_intoResponseBuf {r : Returned Datagram} (hr : ∀ d ∈ r.toList, d = message) :
    ∀ response ∈ (intoResponseBuf r).toList, response = messageBuf := by
  cases r with
  | ok d =>
    obtain rfl : d = message := hr d (List.mem_singleton_self _)
    simp [intoResponseBuf, Returned.toList, message]
  | _ => simp [intoResponseBuf, Returned.toList]

/-- A step which leaves the program at none of the places where something is told. -/
theorem Told.of_pc (hrecv : ∀ r, s.pc ≠ .recv r) (hcheck : ∀ sent r, s.pc ≠ .check sent r)
    (hfailed : ¬s.pc.Failed) : Told ls s where
  sent r h := absurd h (by rintro (h | ⟨received, h⟩); exacts [hrecv r h, hcheck r received h])
  received sent r h := absurd h (hcheck sent r)
  failed e h := absurd ⟨e, h⟩ hfailed

theorem Told.step (hs : Told ls s) (hg : s.Guard l)
    (hmessage : ∀ d, l = .recv (.ok d) → d = message) : Told (ls ++ [l]) (s.step l) := by
  have hmono {m : Label} (hm : m ∈ ls) : m ∈ ls ++ [l] := List.mem_append_left _ hm
  have hlast : l ∈ ls ++ [l] := List.mem_append_right _ (List.mem_singleton_self l)
  have hsame (hpc : (s.step l).pc = s.pc) : Told (ls ++ [l]) (s.step l) :=
    { sent := fun r h => (hs.sent r (hpc ▸ h)).imp_right fun h hr => hmono (h hr)
      received := fun sent r h => (hs.received sent r (hpc ▸ h)).imp_right fun h hr => hmono (h hr)
      failed := fun e h => (hs.failed e (hpc ▸ h)).imp (And.imp_right hmono) (And.imp_right hmono) }
  cases l with
  | sigterm => exact hsame rfl
  | sigusr1 printed => exact hsame rfl
  | test => cases ht : s.terminated <;> refine .of_pc ?_ ?_ ?_ <;> simp [State.step, ht, Pc.Failed]
  | send r =>
    refine ⟨fun r' h => ?_, by simp [State.step], by simp [State.step]⟩
    obtain rfl : r = r' := by simpa [State.step] using h
    exact ⟨hg.2, by rintro rfl; exact hlast⟩
  | recv r =>
    obtain ⟨sent, hpc⟩ := hg
    have hsent := hs.sent sent (.inl hpc)
    refine ⟨fun r' h => ?_, fun sent' r' h => ?_, by simp [State.step, hpc]⟩
    · obtain rfl : sent = r' := by simpa [State.step, hpc] using h
      exact hsent.imp_right fun h hr => hmono (h hr)
    · obtain ⟨rfl, rfl⟩ : sent = sent' ∧ intoResponseBuf r = r' := by
        simpa [State.step, hpc] using h
      refine ⟨mem_intoResponseBuf fun d hd => hmessage d ?_, fun h => ?_⟩
      · cases r <;> simp [Returned.toList] at hd; rw [hd]
      · cases r <;> simp [intoResponseBuf] at h; exact hlast
  | check =>
    obtain ⟨⟨sent, received, hpc⟩, -⟩ := hg
    have hsent := hs.sent sent (.inr ⟨received, hpc⟩)
    have hreceived := hs.received sent received hpc
    have heq := checkReturned_eq hsent.1 hreceived.1
    simp only [State.step, hpc, heq]
    by_cases h1 : sent = .error
    · rw [if_pos h1]
      refine ⟨by simp, by simp, fun e h => .inl ?_⟩
      obtain rfl : "Cannot send request" = e := by simpa using h
      exact ⟨rfl, hmono (hsent.2 h1)⟩
    · rw [if_neg h1]
      by_cases h2 : received = .error
      · rw [if_pos h2]
        refine ⟨by simp, by simp, fun e h => .inr ?_⟩
        obtain rfl : "Cannot retrieve server response" = e := by simpa using h
        exact ⟨rfl, hmono (hreceived.2 h2)⟩
      · rw [if_neg h2]
        exact .of_pc (by simp) (by simp) (by simp [Pc.Failed])

/-- What the program exits with in a run in which it receives nothing but its message. -/
theorem Run.told (hr : program.Run ls s) (hmessage : ∀ d, .recv (.ok d) ∈ ls → d = message) :
    Told ls s := by
  revert hmessage
  refine hr.invariant (P := fun ls s => (∀ d, .recv (.ok d) ∈ ls → d = message) → Told ls s)
    (fun s hs _ => ?_) fun ls s l s' _ hs hst hmessage => ?_
  · obtain rfl := Set.mem_singleton_iff.1 hs
    exact .of_pc (by simp) (by simp) (by simp [Pc.Failed])
  obtain ⟨hg, rfl⟩ := program_next_iff.1 hst
  refine (hs fun d hd => hmessage d (List.mem_append_left _ hd)).step hg fun d hd => hmessage d ?_
  rw [hd]
  exact List.mem_append_right _ (List.mem_singleton_self _)

/-- A step of a program which is to end. -/
theorem rank_step (ht : s.terminated = true) (hg : s.Guard l) :
    (s.step l).terminated = true ∧ l.steps + (s.step l).pc.rank ≤ s.pc.rank := by
  cases l with
  | sigterm => simp [State.step]
  | sigusr1 printed => simp [State.step, ht]
  | test =>
    rw [State.Guard] at hg
    simp [State.step, ht, hg]
  | send r => simp [State.step, ht, hg.1]
  | recv r =>
    obtain ⟨sent, hpc⟩ := hg
    simp [State.step, ht, hpc]
  | check =>
    obtain ⟨⟨sent, received, hpc⟩, -⟩ := hg
    simp only [State.step, hpc]
    cases checkReturned received sent <;> simp [ht]

theorem Pc.rank_le (pc : Pc) : pc.rank ≤ 4 := by
  cases pc <;> simp

/-- After SIGTERM the program takes at most four steps: it finishes a round, and leaves the loop. -/
theorem Run.stops {ms : List Label} (hr : program.Run (ls ++ .sigterm :: ms) s) : steps ms ≤ 4 := by
  have hle : s.terminated = true ∧ steps ms + s.pc.rank ≤ 4 := by
    refine hr.since (P := fun ms s => s.terminated = true ∧ steps ms + s.pc.rank ≤ 4)
      (fun s s' _ hst => ?_) fun ms s m s' ⟨ht, hle⟩ hst => ?_
    · obtain ⟨-, rfl⟩ := program_next_iff.1 hst
      exact ⟨rfl, by simpa [steps, State.step] using s.pc.rank_le⟩
    · obtain ⟨hg, rfl⟩ := program_next_iff.1 hst
      obtain ⟨ht', hrank⟩ := rank_step ht hg
      refine ⟨ht', ?_⟩
      rw [steps, List.map_append, List.sum_append, ← steps, List.map_singleton, List.sum_singleton]
      omega
  omega

/-! ## The hog with its server -/

/-- What a step is for the network. -/
def Label.onSocket {A : Type*} : Label → Option (ExchangeLabel (Option A))
  | .send (.ok _) => some (.send none message)
  | .recv (.ok response) => some (.recv none response)
  | _ => none

end Hog

/-- The hog, and the server with the queues. -/
structure Hogging (A : Type*) where
  hog : Hog.State
  exchange : Exchange (Option A)

/-- A step of the hog, or of the others. -/
inductive HoggingLabel (A : Type*)
  | hog (l : Hog.Label)
  | other (l : ExchangeLabel (Option A))
  deriving DecidableEq

/-- A step on the socket of the hog. -/
def ExchangeLabel.OfHog {A : Type*} : ExchangeLabel (Option A) → Prop
  | .send src _ | .recv src _ => src = none
  | _ => False

instance {A : Type*} [DecidableEq A] : ∀ l : ExchangeLabel (Option A), Decidable l.OfHog
  | .send _ _ | .recv _ _ => inferInstanceAs (Decidable (_ = _))
  | .server _ | .loseRequests _ | .loseResponses _ _ => isFalse id

/-- What a step is for the hog. -/
def HoggingLabel.program {A : Type*} : HoggingLabel A → Option Hog.Label
  | .hog l => some l
  | .other _ => none

/-- What a step is for the network. -/
def HoggingLabel.exchange {A : Type*} : HoggingLabel A → Option (ExchangeLabel (Option A))
  | .hog l => l.onSocket
  | .other l => some l

variable {A : Type*} [DecidableEq A]

namespace Hogging

/-- What a step does. -/
def step (ipv4 : Option A → Bool) (s : Hogging A) : HoggingLabel A → Hogging A
  | .hog l =>
    { hog := s.hog.step l
      exchange := (l.onSocket.map (s.exchange.step ipv4)).getD s.exchange }
  | .other l => { s with exchange := s.exchange.step ipv4 l }

/-- When a step can be taken. -/
def Guard (s : Hogging A) : HoggingLabel A → Prop
  | .hog l => s.hog.Guard l ∧ ∀ l' ∈ l.onSocket, s.exchange.Guard l'
  | .other l => s.exchange.Guard l ∧ ¬l.OfHog

instance (s : Hogging A) : ∀ l, Decidable (s.Guard l)
  | .hog l =>
    match h : (l.onSocket : Option (ExchangeLabel (Option A))) with
    | none => decidable_of_iff (s.hog.Guard l) (by simp [Guard, h])
    | some l' => decidable_of_iff (s.hog.Guard l ∧ s.exchange.Guard l') (by simp [Guard, h])
  | .other _ => inferInstanceAs (Decidable (_ ∧ _))

end Hogging

/-- A hog with a server and other clients. -/
def hogging (ipv4 : Option A → Bool) : Lts (Hogging A) (HoggingLabel A) where
  init := {⟨⟨.test, false, 0⟩, ⟨.start _, [], fun _ => []⟩⟩}
  next s l := if s.Guard l then some (s.step ipv4 l) else none

namespace Hog

variable {ipv4 : Option A → Bool} {ls : List (HoggingLabel A)} {s s' : Hogging A}
  {l : HoggingLabel A}

theorem next_iff : (hogging ipv4).next s l = some s' ↔ s.Guard l ∧ s.step ipv4 l = s' := by
  simp [hogging]

/-- A run of the hog with its server is a run of the program. -/
theorem Run.program (hr : (hogging ipv4).Run ls s) :
    program.Run (ls.filterMap HoggingLabel.program) s.hog := by
  refine hr.project (fun s hs => ?_) fun ls s l s' hr hst => ?_
  · obtain rfl := Set.mem_singleton_iff.1 hs
    rfl
  obtain ⟨hg, rfl⟩ := next_iff.1 hst
  cases l with
  | hog l => exact .inr ⟨l, rfl, program_next_iff.2 ⟨hg.1, rfl⟩⟩
  | other l => exact .inl ⟨rfl, rfl⟩

/-- It is a run of the exchange with the server. -/
theorem Run.exchange (hr : (hogging ipv4).Run ls s) :
    (RealtimeTests.exchange ipv4).Run (ls.filterMap HoggingLabel.exchange) s.exchange := by
  refine hr.project (fun s hs => ?_) fun ls s l s' hr hst => ?_
  · obtain rfl := Set.mem_singleton_iff.1 hs
    rfl
  obtain ⟨hg, rfl⟩ := next_iff.1 hst
  cases l with
  | other l => exact .inr ⟨l, rfl, exchange_next_iff.2 ⟨hg.1, rfl⟩⟩
  | hog l =>
    cases hl : (l.onSocket : Option (ExchangeLabel (Option A))) with
    | none => exact .inl ⟨by simp [Hogging.step, hl], hl⟩
    | some l' =>
      exact .inr ⟨l', hl, exchange_next_iff.2 ⟨hg.2 l' hl, by simp [Hogging.step, hl]⟩⟩

omit [DecidableEq A] in
theorem eq_message_of_onSocket {l : Label} {src : Option A} {request : Datagram}
    (hl : l.onSocket = some (.send src request)) : request = message := by
  cases l with
  | send r => rcases r with _ | _ | _ <;> cases hl; rfl
  | recv r => rcases r with _ | _ | _ <;> cases hl
  | _ => cases hl

/-- What a step sends on the socket of the hog is the message. -/
theorem eq_message_of_mem (hg : s.Guard l) {l' : ExchangeLabel (Option A)}
    (hl : l.exchange = some l') : ∀ d ∈ l'.sentBy none, d = message := by
  intro d hd
  cases l' with
  | send src request =>
    by_cases hsrc : src = none
    · rw [ExchangeLabel.sentBy, if_pos hsrc, List.mem_singleton] at hd
      subst hd
      cases l with
      | hog l => exact eq_message_of_onSocket hl
      | other l =>
        obtain rfl := Option.some.inj hl
        exact absurd hsrc hg.2
    · simp [ExchangeLabel.sentBy, hsrc] at hd
  | _ => simp [ExchangeLabel.sentBy] at hd

/-- What the hog sends is its message. -/
theorem Run.sends_message (hr : (hogging ipv4).Run ls s) :
    ∀ d ∈ sentBy none (ls.filterMap HoggingLabel.exchange), d = message := by
  refine hr.invariant
    (P := fun ls _ => ∀ d ∈ sentBy none (ls.filterMap HoggingLabel.exchange), d = message)
    (fun s _ => by simp [sentBy]) fun ls s l s' _ hs hst => ?_
  obtain ⟨hg, -⟩ := next_iff.1 hst
  intro d hd
  rw [List.filterMap_append, sentBy, List.flatMap_append, List.mem_append] at hd
  refine hd.elim (hs d) fun hd => ?_
  obtain ⟨l', hmem, hd'⟩ := List.mem_flatMap.1 hd
  obtain ⟨m, hm, hl'⟩ := List.mem_filterMap.1 hmem
  obtain rfl := List.mem_singleton.1 hm
  exact eq_message_of_mem hg hl' d hd'

/-- What the hog receives is its message. -/
theorem Run.receives_message (hr : (hogging ipv4).Run ls s) {response : Datagram}
    (hst : (hogging ipv4).next s (.hog (.recv (.ok response))) = some s') :
    response = message := by
  have hr' := hr.snoc hst
  refine Run.sends_message hr' response ?_
  refine ((List.sublist_append_left _ _).trans
    (Run.exchanged (Run.exchange hr') none)).subset ?_
  simp [List.filterMap_append, HoggingLabel.exchange, Label.onSocket, receivedBy,
    ExchangeLabel.receivedBy]

/-- The others leave the socket of the hog alone. -/
theorem Run.not_ofHog (hr : (hogging ipv4).Run ls s) :
    ∀ l, .other l ∈ ls → ¬l.OfHog := by
  refine hr.invariant (P := fun ls _ => ∀ l, .other l ∈ ls → ¬l.OfHog)
    (fun s _ => by simp) fun ls s l s' _ hs hst m hm => ?_
  obtain ⟨hg, -⟩ := next_iff.1 hst
  rcases List.mem_append.1 hm with hm | hm
  · exact hs m hm
  · obtain rfl := List.mem_singleton.1 hm
    exact hg.2

omit [DecidableEq A] in
/-- What is exchanged on the socket of the hog is what the program sends and receives. -/
theorem length_onSocket [DecidableEq (Option A)] (l : Label) :
    (l.onSocket.toList.flatMap (ExchangeLabel.sentBy (none : Option A))).length = l.requests ∧
    (l.onSocket.toList.flatMap (ExchangeLabel.receivedBy (none : Option A))).length =
      l.responses := by
  cases l with
  | send r => cases r <;> simp [Label.onSocket, ExchangeLabel.sentBy, ExchangeLabel.receivedBy]
  | recv r => cases r <;> simp [Label.onSocket, ExchangeLabel.sentBy, ExchangeLabel.receivedBy]
  | _ => simp [Label.onSocket]

theorem exchanged_of_not_ofHog {l : ExchangeLabel (Option A)} (hl : ¬l.OfHog) :
    l.sentBy none = [] ∧ l.receivedBy none = [] := by
  cases l with
  | send src request => exact ⟨if_neg hl, rfl⟩
  | recv src response => exact ⟨rfl, if_neg hl⟩
  | _ => exact ⟨rfl, rfl⟩

omit [DecidableEq A] in
theorem flatMap_exchange_cons (f : ExchangeLabel (Option A) → List Datagram) (l : HoggingLabel A)
    (ls : List (HoggingLabel A)) : ((l :: ls).filterMap HoggingLabel.exchange).flatMap f =
      l.exchange.toList.flatMap f ++ (ls.filterMap HoggingLabel.exchange).flatMap f := by
  cases hl : l.exchange <;> simp [hl]

theorem length_exchanged (ls : List (HoggingLabel A)) (hother : ∀ l, .other l ∈ ls → ¬l.OfHog) :
    (sentBy none (ls.filterMap HoggingLabel.exchange)).length =
      requests (ls.filterMap HoggingLabel.program) ∧
    (receivedBy none (ls.filterMap HoggingLabel.exchange)).length =
      responses (ls.filterMap HoggingLabel.program) := by
  induction ls with
  | nil => exact ⟨rfl, rfl⟩
  | cons l ls ih =>
    obtain ⟨hsent, hreceived⟩ := ih fun m hm => hother m (List.mem_cons_of_mem l hm)
    rw [sentBy] at hsent ⊢
    rw [receivedBy] at hreceived ⊢
    rw [flatMap_exchange_cons, flatMap_exchange_cons, List.length_append, List.length_append,
      hsent, hreceived]
    cases l with
    | hog l =>
      obtain ⟨h1, h2⟩ := length_onSocket (A := A) l
      exact ⟨congrArg (· + _) h1, congrArg (· + _) h2⟩
    | other l =>
      obtain ⟨h1, h2⟩ := exchanged_of_not_ofHog (hother l (List.mem_cons_self ..))
      simp only [HoggingLabel.exchange, Option.toList_some, List.flatMap_singleton, h1, h2,
        List.length_nil, Nat.zero_add]
      exact ⟨rfl, rfl⟩

/-- What is outstanding for the hog: one request, and one more for each time that `recv` has been
    interrupted. -/
theorem Run.outstanding_le (hr : (hogging ipv4).Run ls s) :
    (s.exchange.outstanding none).length ≤
      interruptions (ls.filterMap HoggingLabel.program) + 1 := by
  have hle := (Run.exchanged (Run.exchange hr) none).length_le
  obtain ⟨hsent, hreceived⟩ := length_exchanged ls (Run.not_ofHog hr)
  rw [List.length_append, hsent, hreceived] at hle
  have hcounted := (Run.counted (Run.program hr)).sent
  have hunanswered : s.hog.pc.unanswered ≤ 1 := by
    rcases s.hog.pc with _ | _ | _ | ⟨_, _ | _ | _⟩ | _ | _ <;> simp
  omega

/-- A hog which is interrupted by signals at any time, with a server which is not chained, other
    clients of the server, and datagrams which get lost:

    * it exits with an error only if `send` or `recv` fails, and never because of what it
      receives;
    * what SIGUSR1 prints is the number of responses received so far, plus the number of times that
      `recv` has been interrupted, unless `recv` has just returned;
    * at most one request is outstanding for it, and one more for each interruption;
    * it takes at most four steps after SIGTERM. -/
theorem hogs_server (hr : (hogging ipv4).Run ls s) :
    (∀ e, s.hog.pc = .failed e →
      e = "Cannot send request" ∧ .hog (.send .error) ∈ ls ∨
      e = "Cannot retrieve server response" ∧ .hog (.recv .error) ∈ ls) ∧
    (∀ ks printed ms, ls = ks ++ .hog (.sigusr1 printed) :: ms →
      responses (ks.filterMap HoggingLabel.program) +
          interruptions (ks.filterMap HoggingLabel.program) ∈ Set.Icc printed (printed + 1)) ∧
    (s.exchange.outstanding none).length ≤ interruptions (ls.filterMap HoggingLabel.program) + 1 ∧
    ∀ ks ms, ls = ks ++ .hog .sigterm :: ms → steps (ms.filterMap HoggingLabel.program) ≤ 4 := by
  have hmem {l : Label} (hl : l ∈ ls.filterMap HoggingLabel.program) : .hog l ∈ ls := by
    obtain ⟨m, hm, hml⟩ := List.mem_filterMap.1 hl
    cases m <;> cases hml
    exact hm
  refine ⟨fun e he => ?_, ?_, Run.outstanding_le hr, ?_⟩
  · refine ((Run.told (Run.program hr) fun d hd => ?_).failed e he).imp (And.imp_right hmem)
      (And.imp_right hmem)
    obtain ⟨ks, ms, rfl⟩ := List.append_of_mem (hmem hd)
    exact hr.since (P := fun _ _ => d = message)
      (fun s s' hr hst => Run.receives_message hr hst) fun _ _ _ _ h _ => h
  · rintro ks printed ms rfl
    refine hr.since (P := fun _ _ => responses (ks.filterMap HoggingLabel.program) +
      interruptions (ks.filterMap HoggingLabel.program) ∈ Set.Icc printed (printed + 1))
      (fun s s' hks hst => ?_) fun _ _ _ _ h _ => h
    obtain ⟨⟨-, rfl⟩, -⟩ := (next_iff.1 hst).1
    have hcounted := Run.counted (Run.program hks)
    exact ⟨hcounted.le, hcounted.ge⟩
  · rintro ks ms rfl
    have hrun := Run.program hr
    rw [List.filterMap_append] at hrun
    exact Run.stops hrun

/-- A hog whose first `recv` is interrupted: SIGUSR1 prints 1 before there is any response, and the
    response to the first request is taken for the one to the second request. -/
theorem hogs_server_interrupted :
    ∃ s, (hogging fun _ : Option ℕ => true).Run
      [.hog .test, .hog (.send (.ok 27)), .hog (.recv .eintr), .hog .check, .hog (.sigusr1 1),
        .hog .test, .hog (.send (.ok 27)), .other (.server .test),
        .other (.server (.recvfrom (.ok (none, message)))),
        .other (.server (.sendto none message message (.ok ()))), .hog .sigterm,
        .hog (.recv (.ok message)), .hog .check, .hog .test] s ∧
      s.hog.pc = .done ∧ (s.exchange.outstanding none).length ≤ 2 := by
  have hr : (hogging fun _ : Option ℕ => true).Run
      [.hog .test, .hog (.send (.ok 27)), .hog (.recv .eintr), .hog .check, .hog (.sigusr1 1),
        .hog .test, .hog (.send (.ok 27)), .other (.server .test),
        .other (.server (.recvfrom (.ok (none, message)))),
        .other (.server (.sendto none message message (.ok ()))), .hog .sigterm,
        .hog (.recv (.ok message)), .hog .check, .hog .test] _ :=
    run_of_exec rfl rfl
  exact ⟨_, hr, rfl, (hogs_server hr).2.2.1⟩

end Hog

end RealtimeTests
