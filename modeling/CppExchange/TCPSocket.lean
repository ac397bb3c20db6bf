import CppExchange.Library.Buffer
import CppExchange.Typedefs

/-!
# The TCP socket

`include/communication/tcp_socket.h`: two buffers of the same size, filled from
the front.  `send` appends to the outbound buffer.  `sendAndRecv` appends what
`recvmsg` finds to the inbound buffer, calls `recv_callback_` when that was
anything, offers the outbound buffer to `::send` and empties it.

What the kernel answers is an input of the calls: `recvmsg` takes the bytes that
have arrived as far as there is room for them, and `::send` accepts any number of
leading bytes or fails.  A `Connection` is a socket with the bytes that the
kernel has accepted, and all those that were passed to `send`.  `recv_callback_`
is set, and what it does to the socket is a list of calls: it may take the bytes
out of the inbound buffer, `send`, and call `sendAndRecv` again.

The result of `::send` is not looked at: the buffer is emptied whatever the
kernel accepted.  So no outgoing byte is lost exactly when the kernel accepts
every byte it is offered (`Connection.lossless_iff`).
-/

namespace CppExchange

open Library

/-- `TCPBufferSize`, `64 * 1024 * 1024`. -/
def tcpBufferSize : ℕ := 67108864

/-- `NANOS_TO_MICROS`. -/
def nanosToMicros : NsTimestampT := 1000

/-- `NANOS_TO_SECS`. -/
def nanosToSecs : NsTimestampT := 1000000000

/-- `timeval`. -/
structure Timeval where
  tvSec : Int64
  tvUsec : Int64

/-- What `recvmsg` finds: the bytes that have arrived, none of them at the end of
the stream or when the call would block, and what `ctrl` reads as when it
returns, if that is a time.  The kernel writes the time of their arrival there;
without a control message the buffer has what the stack held, which may be any
time or none. -/
structure Received where
  data : List UInt8
  ctrl : Option Timeval := none

/-- What `::send` answers. -/
inductive Sent
  | accepted (count : ℕ)
  | failed

/-- How many of `len` bytes offered were accepted. -/
def Sent.count (len : ℕ) : Sent → ℕ
  | .accepted count => min count len
  | .failed => 0

/-- `TCPSocket`, with buffers of `n` bytes. -/
structure TCPSocket (n : ℕ) where
  socketFd : ℤ := -1
  outboundData : Fin n → UInt8
  nextSendValidIndex : ℕ := 0
  inboundData : Fin n → UInt8
  nextRcvValidIndex : ℕ := 0
  send_le : nextSendValidIndex ≤ n := by omega
  rcv_le : nextRcvValidIndex ≤ n := by omega

namespace TCPSocket

variable {n : ℕ}

/-- `TCPSocket()`: `resize` fills the buffers with zeros. -/
def new (n : ℕ) : TCPSocket n where
  outboundData _ := 0
  inboundData _ := 0

/-- The bytes still held for sending. -/
def held (s : TCPSocket n) : List UInt8 := front s.outboundData s.nextSendValidIndex s.send_le

/-- `send(data, len)`. -/
def send (s : TCPSocket n) (data : List UInt8) : Except Fault (TCPSocket n) :=
  if h : s.nextSendValidIndex + data.length ≤ n then
    .ok { s with
      outboundData := memcpy s.outboundData s.nextSendValidIndex data
      nextSendValidIndex := s.nextSendValidIndex + data.length
      send_le := h }
  else .error .outOfBounds

/-- `kernel_time`, in nanoseconds: zero when `ctrl` is not the header of a time. -/
def kernelTime : Option Timeval → NsTimestampT
  | some t => t.tvSec * nanosToSecs + t.tvUsec * nanosToMicros
  | none => 0

/-- `recvmsg` into the inbound buffer, and the time `recv_callback_` is called
with, when there was anything to read. -/
def receive (s : TCPSocket n) (r : Received) : TCPSocket n × Option NsTimestampT :=
  let data := r.data.take (n - s.nextRcvValidIndex)
  if 0 < data.length then
    ({ s with
      inboundData := memcpy s.inboundData s.nextRcvValidIndex data
      nextRcvValidIndex := s.nextRcvValidIndex + data.length
      rcv_le := by
        have := s.rcv_le
        simp only [data, List.length_take]
        omega }, some (kernelTime r.ctrl))
  else (s, none)

/-- What the callbacks do with the inbound buffer: `next_rcv_valid_index_ = 0`. -/
def consume (s : TCPSocket n) : TCPSocket n :=
  { s with nextRcvValidIndex := 0, rcv_le := Nat.zero_le n }

/-- The bytes of the outbound buffer that `::send` accepts, and the socket after
`next_send_valid_index_ = 0`. -/
def flush (s : TCPSocket n) (sent : Sent) : TCPSocket n × List UInt8 :=
  let accepted :=
    if 0 < s.nextSendValidIndex then s.held.take (sent.count s.nextSendValidIndex) else []
  ({ s with nextSendValidIndex := 0, send_le := Nat.zero_le n }, accepted)

end TCPSocket

/-- A socket, the bytes the kernel has accepted from it, and those passed to
`send`. -/
structure Connection (n : ℕ) where
  socket : TCPSocket n
  accepted : List UInt8
  passed : List UInt8

/-- A call on a socket, with what the kernel answers and what `recv_callback_`
calls, if it is called. -/
inductive Call
  | send (data : List UInt8)
  | consume
  | sendAndRecv (received : Received) (callback : List Call) (sent : Sent)

namespace Connection

variable {n : ℕ}

/-- A new socket, with nothing passed to it. -/
def new (n : ℕ) : Connection n := ⟨TCPSocket.new n, [], []⟩

/-- The bytes still held for sending. -/
def held (c : Connection n) : List UInt8 := c.socket.held

/-- `send(data, len)`. -/
def send (c : Connection n) (data : List UInt8) : Except Fault (Connection n) := do
  let socket ← c.socket.send data
  return { c with socket, passed := c.passed ++ data }

/-- `next_rcv_valid_index_ = 0`, in a callback. -/
def consume (c : Connection n) : Connection n := { c with socket := c.socket.consume }

/-- `sendAndRecv` up to the end of the callback. -/
def receive (c : Connection n) (r : Received)
    (recvCallback : NsTimestampT → Connection n → Except Fault (Connection n)) :
    Except Fault (Connection n × Bool) :=
  match c.socket.receive r with
  | (socket, some rxTime) => do
      let c ← recvCallback rxTime { c with socket }
      return (c, true)
  | (socket, none) => return ({ c with socket }, false)

/-- `sendAndRecv` after the callback. -/
def flush (c : Connection n) (sent : Sent) : Connection n :=
  let (socket, bytes) := c.socket.flush sent
  { c with socket, accepted := c.accepted ++ bytes }

/-- `sendAndRecv()`. -/
def sendAndRecv (c : Connection n) (r : Received)
    (recvCallback : NsTimestampT → Connection n → Except Fault (Connection n)) (sent : Sent) :
    Except Fault (Connection n × Bool) := do
  let (c, read) ← c.receive r recvCallback
  return (c.flush sent, read)

end Connection

variable {n : ℕ}

mutual

/-- A call. -/
def Call.run : Call → Connection n → Except Fault (Connection n)
  | .send data, c => c.send data
  | .consume, c => return c.consume
  | .sendAndRecv received callback sent, c => do
      let (c, _) ← c.sendAndRecv received (fun _ => runCalls callback) sent
      return c

/-- Calls one after the other. -/
def runCalls : List Call → Connection n → Except Fault (Connection n)
  | [], c => return c
  | call :: calls, c => do
      let c ← call.run c
      runCalls calls c

end

/-! ### What becomes of the outgoing bytes -/

namespace Connection

variable {c c' c'' : Connection n} {all all' : Prop} {data : List UInt8} {sent : Sent}

/-- The kernel accepts all the bytes that are held. -/
def Takes (c : Connection n) (sent : Sent) : Prop := c.held.length ≤ sent.count c.held.length

instance : Decidable (c.Takes sent) := inferInstanceAs (Decidable (_ ≤ _))

/-- The bytes accepted and the bytes held are the bytes passed to `send`. -/
def Lossless (c : Connection n) : Prop := c.accepted ++ c.held = c.passed

instance : Decidable c.Lossless := inferInstanceAs (Decidable (_ = _))

/-- There are fewer of them. -/
def Short (c : Connection n) : Prop := c.accepted.length + c.held.length < c.passed.length

/-- Where bytes are missing there is a loss. -/
theorem Short.not_lossless (h : c.Short) : ¬c.Lossless := by
  intro hl
  have hlen := congrArg List.length hl
  rw [List.length_append] at hlen
  exact absurd h (by rw [Short]; omega)

/-- What a part of a run does to the outgoing bytes, `all` being that the kernel
accepts all it is offered: then it keeps them, and otherwise some are lost for
good. -/
structure Flows (c c' : Connection n) (all : Prop) : Prop where
  kept : all → c.Lossless → c'.Lossless
  lost : ¬all → c.Lossless ∨ c.Short → c'.Short
  short : c.Short → c'.Short

/-- What two parts of a run do, one after the other: bytes once lost stay so. -/
theorem Flows.trans (h : Flows c c' all) (h' : Flows c' c'' all') : Flows c c'' (all ∧ all') where
  kept ha hc := h'.kept ha.2 (h.kept ha.1 hc)
  lost ha hc := by
    by_cases h₁ : all
    · exact h'.lost (fun h₂ => ha ⟨h₁, h₂⟩) (hc.imp (h.kept h₁) h.short)
    · exact h'.short (h.lost h₁ hc)
  short hc := h'.short (h.short hc)

/-- What leaves the outgoing bytes alone loses none. -/
theorem Flows.of_eq (ha : c'.accepted = c.accepted) (hh : c'.held = c.held)
    (hp : c'.passed = c.passed) : Flows c c' True where
  kept _ hc := by rwa [Lossless, ha, hh, hp]
  lost h := absurd trivial h
  short hc := by rwa [Short, ha, hh, hp]

/-- A send holds its data behind what was held. -/
theorem held_send {s s' : TCPSocket n} (h : s.send data = .ok s') : s'.held = s.held ++ data := by
  unfold TCPSocket.send at h
  split_ifs at h with hn
  obtain rfl := Except.ok.inj h
  exact front_memcpy s.send_le hn

/-- `send` holds what it is passed. -/
theorem flows_send (h : c.send data = .ok c') : Flows c c' True := by
  obtain ⟨socket, hs, hc⟩ := bind_eq_ok.1 h
  obtain rfl := Except.ok.inj hc
  have hheld : socket.held = c.held ++ data := held_send hs
  refine ⟨fun _ hc => ?_, fun h => absurd trivial h, fun hc => ?_⟩
  · calc c.accepted ++ socket.held = c.accepted ++ c.held ++ data := by
          rw [hheld, List.append_assoc]
      _ = c.passed ++ data := by rw [show c.accepted ++ c.held = c.passed from hc]
  · have hlt : c.accepted.length + c.held.length < c.passed.length := hc
    show c.accepted.length + socket.held.length < (c.passed ++ data).length
    rw [hheld, List.length_append, List.length_append]
    omega

/-- Nothing is received into the outbound buffer. -/
theorem held_receive (s : TCPSocket n) (r : Received) : (s.receive r).1.held = s.held := by
  unfold TCPSocket.receive
  dsimp only
  split_ifs <;> rfl

/-- The bytes accepted are the first ones held. -/
theorem flush_snd (s : TCPSocket n) (sent : Sent) :
    (s.flush sent).2 = s.held.take (sent.count s.held.length) := by
  have hlen : s.held.length = s.nextSendValidIndex := length_front s.send_le
  unfold TCPSocket.flush
  dsimp only
  split_ifs with h
  · rw [hlen]
  · rw [List.length_eq_zero_iff.1 (show s.held.length = 0 by omega), List.take_nil]

theorem held_flush : (c.flush sent).held = [] :=
  @front_zero UInt8 n c.socket.outboundData (Nat.zero_le n)

theorem accepted_flush :
    (c.flush sent).accepted = c.accepted ++ c.held.take (sent.count c.held.length) :=
  congrArg (c.accepted ++ ·) (flush_snd c.socket sent)

/-- **The end of `sendAndRecv`** drops the bytes that the kernel did not accept. -/
theorem flows_flush : Flows c (c.flush sent) (c.Takes sent) := by
  have hp : (c.flush sent).passed = c.passed := rfl
  refine ⟨fun ha hc => ?_, fun ha hc => ?_, fun hc => ?_⟩
  · rw [Lossless, accepted_flush, held_flush, List.take_of_length_le ha, List.append_nil]
    exact hc
  · have hle : c.accepted.length + c.held.length ≤ c.passed.length := by
      rcases hc with hc | hc
      · rw [← hc, List.length_append]
      · exact hc.le
    rw [Takes] at ha
    simp only [Short, accepted_flush, held_flush, hp, List.length_append, List.length_take,
      List.length_nil]
    omega
  · rw [Short] at hc
    simp only [Short, accepted_flush, held_flush, hp, List.length_append, List.length_take,
      List.length_nil]
    omega

end Connection

mutual

/-- The kernel accepts all it is offered in a call. -/
def Call.TakesAll : Call → Connection n → Prop
  | .send _, _ => True
  | .consume, _ => True
  | .sendAndRecv received callback sent, c =>
      (match c.socket.receive received with
        | (socket, some _) => callsTakeAll callback { c with socket }
        | (_, none) => True) ∧
      match c.receive received (fun _ => runCalls callback) with
        | .ok (c, _) => c.Takes sent
        | .error _ => True

/-- The kernel accepts all it is offered in calls one after the other. -/
def callsTakeAll : List Call → Connection n → Prop
  | [], _ => True
  | call :: calls, c => call.TakesAll c ∧
      match call.run c with
        | .ok c => callsTakeAll calls c
        | .error _ => True

end

mutual

instance Call.TakesAll.decidable : ∀ (call : Call) (c : Connection n), Decidable (call.TakesAll c)
  | .send _, _ => .isTrue trivial
  | .consume, _ => .isTrue trivial
  | .sendAndRecv received callback sent, c =>
    have : Decidable (match c.socket.receive received with
        | (socket, some _) => callsTakeAll callback { c with socket }
        | (_, none) => True) :=
      match c.socket.receive received with
      | (socket, some _) => callsTakeAll.decidable callback { c with socket }
      | (_, none) => .isTrue trivial
    have : Decidable (match c.receive received (fun _ => runCalls callback) with
        | .ok (c, _) => c.Takes sent
        | .error _ => True) :=
      match c.receive received (fun _ => runCalls callback) with
      | .ok (c, _) => inferInstanceAs (Decidable (c.Takes sent))
      | .error _ => .isTrue trivial
    inferInstanceAs (Decidable (_ ∧ _))

instance callsTakeAll.decidable :
    ∀ (calls : List Call) (c : Connection n), Decidable (callsTakeAll calls c)
  | [], _ => .isTrue trivial
  | call :: calls, c =>
    have : Decidable (call.TakesAll c) := Call.TakesAll.decidable call c
    have : Decidable (match call.run c with
        | .ok c => callsTakeAll calls c
        | .error _ => True) :=
      match call.run c with
      | .ok c => callsTakeAll.decidable calls c
      | .error _ => .isTrue trivial
    inferInstanceAs (Decidable (_ ∧ _))

end

mutual

/-- **A call** loses outgoing bytes exactly when the kernel does not accept all. -/
theorem Call.flows {c c' : Connection n} :
    ∀ call : Call, call.run c = .ok c' → Connection.Flows c c' (call.TakesAll c)
  | .send data, h => Connection.flows_send h
  | .consume, h => by
      obtain rfl := Except.ok.inj h
      exact Connection.Flows.of_eq rfl rfl rfl
  | .sendAndRecv received callback sent, h => by
      obtain ⟨⟨_, read⟩, h, hc⟩ := bind_eq_ok.1 h
      obtain ⟨⟨c₁, _⟩, hr, hf⟩ := bind_eq_ok.1 h
      obtain ⟨rfl, rfl⟩ := Prod.mk.inj (Except.ok.inj hf)
      obtain rfl := Except.ok.inj hc
      have hheld := Connection.held_receive c.socket received
      rw [Call.TakesAll, hr]
      refine Connection.Flows.trans ?_ Connection.flows_flush
      unfold Connection.receive at hr
      rcases hs : c.socket.receive received with ⟨socket, _ | rxTime⟩ <;> rw [hs] at hr hheld
      · obtain ⟨rfl, rfl⟩ := Prod.mk.inj (Except.ok.inj hr)
        exact Connection.Flows.of_eq rfl hheld rfl
      · obtain ⟨c₂, h₂, hr⟩ := bind_eq_ok.1 hr
        obtain ⟨rfl, rfl⟩ := Prod.mk.inj (Except.ok.inj hr)
        have hcallback := runCalls_flows callback h₂
        have hreceive : Connection.Flows c { c with socket } True :=
          Connection.Flows.of_eq rfl hheld rfl
        simpa only [true_and] using hreceive.trans hcallback

/-- **A list of calls keeps the bytes** exactly when each offer of it is
accepted whole, callbacks included. -/
theorem runCalls_flows {c c' : Connection n} :
    ∀ calls : List Call, runCalls calls c = .ok c' →
      Connection.Flows c c' (callsTakeAll calls c)
  | [], h => by
      obtain rfl := Except.ok.inj h
      exact Connection.Flows.of_eq rfl rfl rfl
  | call :: calls, h => by
      obtain ⟨c₁, h₁, h⟩ := bind_eq_ok.1 h
      have hcall := Call.flows call h₁
      have hcalls := runCalls_flows calls h
      rw [callsTakeAll, h₁]
      exact hcall.trans hcalls

end

namespace Connection

variable {c : Connection n} {calls rest : List Call}

/-- Calls in a row are run one part after the other. -/
theorem runCalls_append (c : Connection n) :
    runCalls (calls ++ rest) c = runCalls calls c >>= runCalls rest := by
  induction calls generalizing c with
  | nil => rfl
  | cons call calls ih =>
    show (call.run c >>= runCalls (calls ++ rest)) = (call.run c >>= runCalls calls) >>= _
    cases hr : call.run c with
    | error e => rfl
    | ok c₁ => exact ih c₁

/-- **When no outgoing byte is lost.**  After every call of a run the bytes the
kernel has accepted, followed by those that are held, are the bytes that were
passed to `send`, exactly when the kernel accepts all it is offered by every
`::send`. -/
theorem lossless_iff (h : runCalls calls (new n) = .ok c) :
    (∀ before c', before <+: calls → runCalls before (new n) = .ok c' → c'.Lossless) ↔
      callsTakeAll calls (new n) := by
  have hnew : (new n).Lossless := @front_zero UInt8 n (TCPSocket.new n).outboundData n.zero_le
  have hflows := runCalls_flows calls h
  constructor
  · intro hall
    by_contra ht
    exact (hflows.lost ht (Or.inl hnew)).not_lossless (hall calls c List.prefix_rfl h)
  · rintro ht before c' ⟨rest, rfl⟩ hbefore
    rw [runCalls_append, hbefore] at h
    have hrest := runCalls_flows rest h
    by_contra hc'
    have hshort : c'.Short := by
      refine (runCalls_flows before hbefore).lost (fun hb => ?_) (Or.inl hnew)
      exact hc' ((runCalls_flows before hbefore).kept hb hnew)
    exact (hrest.short hshort).not_lossless (hflows.kept ht hnew)

/-- A reply sent by the callback, and a flush that the kernel takes whole. -/
def reply : List Call :=
  [.send [1, 2], .sendAndRecv { data := [7] } [.consume, .send [3]] (.accepted 64)]

/-- The reply is an instance. -/
theorem lossless_reply : ∃ c, runCalls reply (new tcpBufferSize) = .ok c ∧
    ∀ before c', before <+: reply → runCalls before (new tcpBufferSize) = .ok c' →
      c'.Lossless :=
  have h : (runCalls reply (new tcpBufferSize)).isOk = true := by decide +kernel
  let ⟨c, hc⟩ := exists_of_isOk h
  ⟨c, hc, (lossless_iff hc).2 (by decide +kernel)⟩

/-- **A short write** loses the bytes that the kernel did not take. -/
theorem not_lossless_shortWrite : ∃ c : Connection tcpBufferSize,
    runCalls [.send [1, 2, 3, 4], .sendAndRecv { data := [] } [] (.accepted 2)]
        (new tcpBufferSize) = .ok c ∧
      c.accepted = [1, 2] ∧ c.held = [] ∧ ¬c.Lossless := by
  decide +kernel

end Connection

end CppExchange
