import CppExchange.Serving

/-!
# What becomes of the incoming bytes

The other half of `sendAndRecv`.  What `recvmsg` reads stands behind what is in
the inbound buffer already, until a callback takes the contents of the buffer, so
the bytes that the callbacks have taken, followed by those in the buffer, are the
bytes that were read (`Call.inbound_run`).  A `recvmsg` with no room for all that
has arrived leaves the rest for the next one.  So each connection of a server
gets a beginning of what its peer has sent, in order, with nothing lost and
nothing twice, however the calls on the other connections are mixed with its own,
as long as no dead descriptor is reported again (`Serving.inbound_of_run`).
-/

namespace CppExchange

open Library

variable {n : ℕ}

/-- The bytes of the inbound buffer. -/
def TCPSocket.inbox (s : TCPSocket n) : List UInt8 :=
  front s.inboundData s.nextRcvValidIndex s.rcv_le

/-- What happens to the incoming bytes in a call: `recvmsg` reads as many of the
bytes that have arrived as there is room for, or a callback takes those that are
in the buffer. -/
inductive Inbound
  | read (arrived : List UInt8) (room : ℕ)
  | took (data : List UInt8)

namespace Inbound

/-- The bytes that were read. -/
def heard : List Inbound → List UInt8
  | [] => []
  | .read arrived room :: events => arrived.take room ++ heard events
  | .took _ :: events => heard events

/-- The bytes that were taken. -/
def taken : List Inbound → List UInt8
  | [] => []
  | .read _ _ :: events => taken events
  | .took data :: events => data ++ taken events

/-- What has arrived, each time, are the next bytes of a stream. -/
def Draws : List UInt8 → List Inbound → Prop
  | _, [] => True
  | stream, .read arrived room :: events =>
    arrived <+: stream ∧ Draws (stream.drop (arrived.take room).length) events
  | stream, .took _ :: events => Draws stream events

instance Draws.decidable : ∀ (stream : List UInt8) (events : List Inbound),
    Decidable (Draws stream events)
  | _, [] => .isTrue trivial
  | stream, .read arrived room :: events =>
    have : Decidable (Draws (stream.drop (arrived.take room).length) events) :=
      Draws.decidable _ events
    inferInstanceAs (Decidable (arrived <+: stream ∧ _))
  | stream, .took _ :: events => Draws.decidable stream events

variable {events events' : List Inbound} {stream : List UInt8}

theorem heard_append : heard (events ++ events') = heard events ++ heard events' := by
  induction events with
  | nil => rfl
  | cons event events ih => cases event <;> simp [heard, ih]

theorem taken_append : taken (events ++ events') = taken events ++ taken events' := by
  induction events with
  | nil => rfl
  | cons event events ih => cases event <;> simp [taken, ih]

/-- **What was read from a stream** is a beginning of it. -/
theorem heard_prefix (h : Draws stream events) : heard events <+: stream := by
  induction events generalizing stream with
  | nil => exact List.nil_prefix
  | cons event events ih =>
    cases event with
    | took data => exact ih h
    | read arrived room =>
      obtain ⟨harrived, hdraws⟩ := h
      obtain ⟨rest, rfl⟩ := (List.take_prefix room arrived).trans harrived
      rw [List.drop_left] at hdraws
      exact (List.prefix_append_right_inj _).2 (ih hdraws)

end Inbound

/-! ### Calls -/

mutual

/-- What happens to the incoming bytes in a call. -/
def Call.inbound : Call → Connection n → List Inbound
  | .send _, _ => []
  | .consume, c => [.took c.socket.inbox]
  | .sendAndRecv received callback _, c =>
    .read received.data (n - c.socket.nextRcvValidIndex) ::
      match c.socket.receive received with
      | (socket, some _) => callsInbound callback { c with socket }
      | (_, none) => []

/-- What happens to them in calls one after the other. -/
def callsInbound : List Call → Connection n → List Inbound
  | [], _ => []
  | call :: calls, c => call.inbound c ++
      match call.run c with
      | .ok c => callsInbound calls c
      | .error _ => []

end

namespace Connection

variable {c c' : Connection n} {data : List UInt8} {sent : Sent}

/-- Sending takes nothing from the inbox. -/
theorem inbox_send (h : c.send data = .ok c') : c'.socket.inbox = c.socket.inbox := by
  obtain ⟨socket, hs, hc⟩ := bind_eq_ok.1 h
  obtain rfl := Except.ok.inj hc
  unfold TCPSocket.send at hs
  split_ifs at hs with hn
  obtain rfl := Except.ok.inj hs
  rfl

theorem inbox_consume : c.consume.socket.inbox = [] :=
  @front_zero UInt8 n c.socket.inboundData (Nat.zero_le n)

theorem inbox_flush : (c.flush sent).socket.inbox = c.socket.inbox := rfl

/-- What `recvmsg` reads goes behind what is in the buffer. -/
theorem inbox_receive (s : TCPSocket n) (r : Received) :
    (s.receive r).1.inbox = s.inbox ++ r.data.take (n - s.nextRcvValidIndex) := by
  unfold TCPSocket.receive
  dsimp only
  split_ifs with h
  · exact front_memcpy s.rcv_le _
  · rw [List.length_eq_zero_iff.1 (Nat.eq_zero_of_not_pos h), List.append_nil]

end Connection

mutual

/-- **A call** keeps the incoming bytes: those that were in the buffer and those
that were read are the ones that were taken and those that are in the buffer. -/
theorem Call.inbound_run {c c' : Connection n} : ∀ call : Call, call.run c = .ok c' →
    c.socket.inbox ++ Inbound.heard (call.inbound c) =
      Inbound.taken (call.inbound c) ++ c'.socket.inbox
  | .send data, h => by
      rw [Call.inbound, Connection.inbox_send h]
      exact List.append_nil _
  | .consume, h => by
      obtain rfl := Except.ok.inj h
      simp only [Call.inbound, Inbound.heard, Inbound.taken, Connection.inbox_consume,
        List.append_nil]
  | .sendAndRecv received callback sent, h => by
      obtain ⟨⟨_, read⟩, h, hc⟩ := bind_eq_ok.1 h
      obtain ⟨⟨c₁, _⟩, hr, hf⟩ := bind_eq_ok.1 h
      obtain ⟨rfl, rfl⟩ := Prod.mk.inj (Except.ok.inj hf)
      obtain rfl := Except.ok.inj hc
      have hinbox := Connection.inbox_receive c.socket received
      rw [Call.inbound, Inbound.heard, Inbound.taken, Connection.inbox_flush, ← List.append_assoc,
        ← hinbox]
      unfold Connection.receive at hr
      rcases hs : c.socket.receive received with ⟨socket, _ | rxTime⟩ <;> rw [hs] at hr
      · obtain ⟨rfl, rfl⟩ := Prod.mk.inj (Except.ok.inj hr)
        exact List.append_nil _
      · obtain ⟨c₂, h₂, hr⟩ := bind_eq_ok.1 hr
        obtain ⟨rfl, rfl⟩ := Prod.mk.inj (Except.ok.inj hr)
        exact runCalls_inbound callback h₂

/-- **What came in is taken or kept,** over any number of calls: each starts
from the inbox that the one before has left, and a receive callback is such a
list of calls itself. -/
theorem runCalls_inbound {c c' : Connection n} : ∀ calls : List Call, runCalls calls c = .ok c' →
    c.socket.inbox ++ Inbound.heard (callsInbound calls c) =
      Inbound.taken (callsInbound calls c) ++ c'.socket.inbox
  | [], h => by
      obtain rfl := Except.ok.inj h
      exact List.append_nil _
  | call :: calls, h => by
      obtain ⟨c₁, h₁, h⟩ := bind_eq_ok.1 h
      have hcall := Call.inbound_run call h₁
      have hcalls := runCalls_inbound calls h
      rw [callsInbound, h₁, Inbound.heard_append, Inbound.taken_append, ← List.append_assoc, hcall,
        List.append_assoc, hcalls, List.append_assoc]

end

/-! ### The connections of a server -/

namespace Serving

variable {P : Type} [DecidableEq P] {server : TCPServer P n} {actions : List (ServerAction P)}
  {s : Serving P n} {q : SocketPtr P} {socket : TCPSocket n} {stream : List UInt8}

/-- **No incoming byte is lost,** as long as no dead descriptor is reported
again.  What the callbacks of a connection have taken, followed by what is in
its inbound buffer, is what `recvmsg` has read, which is a beginning of what its
peer has sent. -/
theorem inbound_of_run {kqueue socketFd port : ℤ} {kevent : KEvent P → Bool}
    {iface errno : String}
    (h₀ : (TCPServer.new P n).listen kqueue socketFd kevent iface port errno = .ok server)
    (ha : EachStep step Allowed (listening server) actions)
    (hsil : EachStep step Silent (listening server) actions)
    (h : actions.foldlM step (listening server) = .ok s)
    (hq : s.server.socketAt q = some socket)
    (hd : Inbound.Draws stream (callsInbound (s.history q) (.opened n socket.socketFd))) :
    Inbound.taken (callsInbound (s.history q) (.opened n socket.socketFd)) ++ socket.inbox =
        Inbound.heard (callsInbound (s.history q) (.opened n socket.socketFd)) ∧
      Inbound.taken (callsInbound (s.history q) (.opened n socket.socketFd)) ++ socket.inbox <+:
        stream := by
  obtain ⟨c, hc, rfl⟩ := (consistent_of_run h₀ ha hsil h).alone q socket hq
  have hnew : (Connection.opened n c.socket.socketFd).socket.inbox = [] :=
    @front_zero UInt8 n (TCPSocket.new n).inboundData n.zero_le
  have hkept := runCalls_inbound (c := .opened n c.socket.socketFd) (s.history q) hc
  rw [hnew, List.nil_append] at hkept
  rw [← hkept]
  exact ⟨rfl, Inbound.heard_prefix hd⟩

/-- A connection whose bytes arrive in two parts, the first of which is taken. -/
def readingServing : List (ServerAction ℕ) :=
  [.poll [⟨4, .read, 0, .listener⟩] [{ fd := 5, address := 1 }],
   .sendAndRecv (fun _ => { received := { data := [7, 8] }, callback := [.consume] }) []
     (fun _ => {}),
   .sendAndRecv (fun _ => { received := { data := [9] } }) [] (fun _ => {})]

/-- The connection that takes two bytes of three is an instance. -/
theorem inbound_of_readingServing : ∃ (s : Serving ℕ tcpBufferSize) (socket : TCPSocket _),
    readingServing.foldlM step (listening sampleServer) = .ok s ∧
      s.server.socketAt (.allocated 1) = some socket ∧
      Inbound.taken (callsInbound (s.history (.allocated 1))
        (.opened tcpBufferSize socket.socketFd)) ++ socket.inbox <+: [7, 8, 9, 10] := by
  have hrun : ∃ s, readingServing.foldlM step (listening sampleServer) = .ok s ∧
      ∃ socket ∈ s.server.socketAt (.allocated 1), Inbound.Draws [7, 8, 9, 10]
        (callsInbound (s.history (.allocated 1)) (.opened tcpBufferSize socket.socketFd)) := by
    decide +kernel
  obtain ⟨s, hs, socket, hq, hd⟩ := hrun
  exact ⟨s, socket, hs, hq, (inbound_of_run listen_sampleServer (by decide +kernel)
    (by decide +kernel) hs hq hd).2⟩

end Serving

end CppExchange
