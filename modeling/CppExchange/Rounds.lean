import CppExchange.TCPServer

/-!
# The rounds of the server

`listen` and `sendAndRecv` of `include/communication/tcp_server.h`.  `sendAndRecv`
makes one round over the sockets to receive from, calls
`recv_finished_callback_` when anything was read, and makes one round over the
sockets to send to.  What the kernel answers to each socket, and what the
callbacks call, are inputs; `recv_callback_` calls only the socket that it is
given, and `recv_finished_callback_` any socket.

A round is a sequence of calls on sockets.  Every socket comes out of it as if
it had been alone with the calls that are for it, and nothing else of the server
changes (`TCPServer.Called`, `TCPServer.called_of_sendAndRecv`).
-/

namespace CppExchange

open Library

/-! ### Calls on a connection -/

namespace Connection

variable {n : ℕ}

/-- The connection with bytes accepted and passed before it. -/
def behind (accepted passed : List UInt8) (c : Connection n) : Connection n where
  socket := c.socket
  accepted := accepted ++ c.accepted
  passed := passed ++ c.passed

variable {c c' : Connection n} {accepted passed data : List UInt8} {sent : Sent}

/-- What a connection has passed and the kernel has accepted before is not
looked at by a send. -/
theorem send_behind :
    (c.behind accepted passed).send data = (c.send data).map (behind accepted passed) := by
  unfold send behind
  cases c.socket.send data with
  | error e => rfl
  | ok socket => simp [Except.map, List.append_assoc]

theorem flush_behind :
    (c.behind accepted passed).flush sent = (c.flush sent).behind accepted passed := by
  simp [flush, behind, List.append_assoc]

/-- A send keeps the descriptor. -/
theorem socketFd_send (h : c.send data = .ok c') : c'.socket.socketFd = c.socket.socketFd := by
  obtain ⟨socket, hs, hc⟩ := bind_eq_ok.1 h
  obtain rfl := Except.ok.inj hc
  unfold TCPSocket.send at hs
  split_ifs at hs with hn
  obtain rfl := Except.ok.inj hs
  rfl

/-- A read keeps the descriptor. -/
theorem socketFd_receive (s : TCPSocket n) (r : Received) :
    (s.receive r).1.socketFd = s.socketFd := by
  unfold TCPSocket.receive
  dsimp only
  split_ifs <;> rfl

/-- A new socket with a descriptor, and nothing passed to it. -/
def opened (n : ℕ) (socketFd : ℤ) : Connection n :=
  ⟨{ TCPSocket.new n with socketFd }, [], []⟩

/-- **A new socket** has lost no byte in the end exactly when the kernel took all
that it was offered on the way. -/
theorem lossless_iff_of_opened {socketFd : ℤ} {calls : List Call}
    (h : runCalls calls (opened n socketFd) = .ok c) :
    c.Lossless ↔ callsTakeAll calls (opened n socketFd) := by
  have hnew : (opened n socketFd).Lossless :=
    @front_zero UInt8 n (TCPSocket.new n).outboundData n.zero_le
  have hflows := runCalls_flows calls h
  refine ⟨fun hl => ?_, fun ht => hflows.kept ht hnew⟩
  by_contra ht
  exact (hflows.lost ht (Or.inl hnew)).not_lossless hl

end Connection

section Calls

variable {n : ℕ} {c c' : Connection n} {accepted passed : List UInt8}

mutual

/-- **A call looks at the socket only,** not at the bytes that went before. -/
theorem Call.run_behind {c : Connection n} :
    ∀ call : Call, call.run (c.behind accepted passed) =
      (call.run c).map (Connection.behind accepted passed)
  | .send data => Connection.send_behind
  | .consume => rfl
  | .sendAndRecv received callback sent => by
      simp only [Call.run, Connection.sendAndRecv, Connection.receive,
        show (c.behind accepted passed).socket = c.socket from rfl]
      rcases c.socket.receive received with ⟨socket, _ | rxTime⟩
      · simp only [pure_eq_ok, ok_bind, Except.map]
        exact congrArg Except.ok (Connection.flush_behind (c := { c with socket }))
      · have hcallback := runCalls_behind (c := { c with socket }) callback
        dsimp only
        rw [show ({ (c.behind accepted passed) with socket } : Connection n) =
          Connection.behind accepted passed { c with socket } from rfl, hcallback]
        cases runCalls callback { c with socket } with
        | error e => rfl
        | ok c₁ =>
          simp only [pure_eq_ok, ok_bind, Except.map]
          exact congrArg Except.ok Connection.flush_behind

/-- **Calls do not look at what was passed before:** a connection goes on from
any history of the same socket. -/
theorem runCalls_behind {c : Connection n} :
    ∀ calls : List Call, runCalls calls (c.behind accepted passed) =
      (runCalls calls c).map (Connection.behind accepted passed)
  | [] => rfl
  | call :: calls => by
      rw [runCalls, runCalls, Call.run_behind call]
      cases call.run c with
      | error e => rfl
      | ok c₁ => exact runCalls_behind calls

end

mutual

/-- No call changes the file descriptor. -/
theorem Call.socketFd_run {c c' : Connection n} :
    ∀ call : Call, call.run c = .ok c' → c'.socket.socketFd = c.socket.socketFd
  | .send data, h => Connection.socketFd_send h
  | .consume, h => by
      obtain rfl := Except.ok.inj h
      rfl
  | .sendAndRecv received callback sent, h => by
      obtain ⟨⟨_, read⟩, h, hc⟩ := bind_eq_ok.1 h
      obtain ⟨⟨c₁, _⟩, hr, hf⟩ := bind_eq_ok.1 h
      obtain ⟨rfl, rfl⟩ := Prod.mk.inj (Except.ok.inj hf)
      obtain rfl := Except.ok.inj hc
      show c₁.socket.socketFd = _
      have hfd := Connection.socketFd_receive c.socket received
      unfold Connection.receive at hr
      rcases hs : c.socket.receive received with ⟨socket, _ | rxTime⟩ <;> rw [hs] at hr hfd
      · obtain ⟨rfl, rfl⟩ := Prod.mk.inj (Except.ok.inj hr)
        exact hfd
      · obtain ⟨c₂, h₂, hr⟩ := bind_eq_ok.1 hr
        obtain ⟨rfl, rfl⟩ := Prod.mk.inj (Except.ok.inj hr)
        exact (runCalls_socketFd callback h₂).trans hfd

/-- Calls keep the descriptor. -/
theorem runCalls_socketFd {c c' : Connection n} :
    ∀ calls : List Call, runCalls calls c = .ok c' → c'.socket.socketFd = c.socket.socketFd
  | [], h => by
      obtain rfl := Except.ok.inj h
      rfl
  | call :: calls, h => by
      obtain ⟨c₁, h₁, h⟩ := bind_eq_ok.1 h
      exact (runCalls_socketFd calls h).trans (Call.socketFd_run call h₁)

end

mutual

/-- What fails in a call is a `send` past the end of the buffer. -/
theorem Call.run_error {c : Connection n} {e : Fault} :
    ∀ call : Call, call.run c = .error e → e = .outOfBounds
  | .send data, h => by
      rcases bind_eq_error.1 h with h | ⟨_, _, h⟩
      · unfold TCPSocket.send at h
        split_ifs at h
        exact (Except.error.inj h).symm
      · cases h
  | .consume, h => by cases h
  | .sendAndRecv received callback sent, h => by
      rcases bind_eq_error.1 h with h | ⟨_, _, h⟩
      · rcases bind_eq_error.1 h with h | ⟨_, _, h⟩
        · unfold Connection.receive at h
          rcases hs : c.socket.receive received with ⟨socket, _ | rxTime⟩ <;> rw [hs] at h
          · cases h
          · rcases bind_eq_error.1 h with h | ⟨_, _, h⟩
            · exact runCalls_error callback h
            · cases h
        · cases h
      · cases h

/-- The only way for a call to fail is to write past the buffer. -/
theorem runCalls_error {c : Connection n} {e : Fault} :
    ∀ calls : List Call, runCalls calls c = .error e → e = .outOfBounds
  | [], h => by cases h
  | call :: calls, h => by
      rcases bind_eq_error.1 h with h | ⟨_, _, h⟩
      · exact Call.run_error call h
      · exact runCalls_error calls h

end

/-- Calls that went on where others had stopped. -/
theorem runCalls_resume {calls rest : List Call} {c₀ : Connection n}
    (h : runCalls calls c₀ = .ok c) (h' : runCalls rest ⟨c.socket, [], []⟩ = .ok c') :
    runCalls (calls ++ rest) c₀ = .ok (c'.behind c.accepted c.passed) := by
  have hc : Connection.behind c.accepted c.passed ⟨c.socket, [], []⟩ = c := by
    simp [Connection.behind]
  have hrest : runCalls rest (Connection.behind c.accepted c.passed ⟨c.socket, [], []⟩) = _ :=
    runCalls_behind rest
  rw [hc, h'] at hrest
  rw [Connection.runCalls_append, h]
  exact hrest

end Calls

/-- What a `sendAndRecv` on a socket meets: what `recvmsg` finds, what
`recv_callback_` calls on this socket if that is anything, and what `::send`
answers. -/
structure Answer where
  received : Received := { data := [] }
  callback : List Call := []
  sent : Sent := .failed

/-- The `sendAndRecv` that meets it. -/
def Answer.call (a : Answer) : Call := .sendAndRecv a.received a.callback a.sent

namespace TCPServer

variable {P : Type} [DecidableEq P] {n : ℕ}

/-- `TCPServer()`. -/
def new (P : Type) (n : ℕ) : TCPServer P n where
  listenerSocket := .new n
  sockets _ := none

/-- `listen(iface, port)`: `kqueue` and `socketFd` are what `kqueue()` and
`createSocket` return. -/
def listen (s : TCPServer P n) (kqueue socketFd : ℤ) (kevent : KEvent P → Bool) (iface : String)
    (port : ℤ) (errno : String) : Except PollFault (TCPServer P n) := do
  let s := { s with kqueueFd := kqueue }
  ensure (0 ≤ s.kqueueFd) ("kqueue() failed: " ++ errno)
  let s := { s with listenerSocket := { s.listenerSocket with socketFd } }
  ensure (0 ≤ socketFd) ("Listener socket failed to connect. iface:" ++ iface ++ " port:" ++
    toString port ++ " error:" ++ errno)
  ensure (addToKqueueList kevent .listener s.listenerSocket .read (evAdd ||| evEnable))
    ("kevent() failed to add listener socket. error:" ++ errno)
  return s

/-- The socket a pointer points to, when it was not deleted. -/
def socketAt (s : TCPServer P n) : SocketPtr P → Option (TCPSocket n)
  | .listener => some s.listenerSocket
  | .allocated p => s.sockets p

/-- A write through a pointer. -/
def setSocket (s : TCPServer P n) (ptr : SocketPtr P) (socket : TCPSocket n) : TCPServer P n :=
  match ptr with
  | .listener => { s with listenerSocket := socket }
  | .allocated p => { s with sockets := Function.update s.sockets p (some socket) }

/-- A call on the socket a pointer points to. -/
def callSocket (s : TCPServer P n) (x : SocketPtr P × Call) : Except PollFault (TCPServer P n) := do
  let socket ← (deref (s.socketAt x.1)).mapError .fault
  let c ← (x.2.run ⟨socket, [], []⟩).mapError .fault
  return s.setSocket x.1 c.socket

/-- `socket->sendAndRecv()`. -/
def sendAndRecvOn (s : TCPServer P n) (ptr : SocketPtr P) (a : Answer) :
    Except PollFault (TCPServer P n × Bool) := do
  let socket ← (deref (s.socketAt ptr)).mapError .fault
  let (c, read) ← ((⟨socket, [], []⟩ : Connection n).sendAndRecv a.received
    (fun _ => runCalls a.callback) a.sent).mapError .fault
  return (s.setSocket ptr c.socket, read)

/-- The sockets of a loop, with the answers to its calls. -/
def paired (sockets : List (SocketPtr P)) (answers : ℕ → Answer) : List (SocketPtr P × Answer) :=
  sockets.mapIdx fun i socket => (socket, answers i)

/-- `for (auto socket : sockets) recv |= socket->sendAndRecv()`. -/
def sendAndRecvAll (s : TCPServer P n) (sockets : List (SocketPtr P × Answer)) :
    Except PollFault (TCPServer P n × Bool) :=
  sockets.foldlM (fun (s, recv) (socket, a) => do
    let (s, read) ← s.sendAndRecvOn socket a
    return (s, recv || read)) (s, false)

/-- `sendAndRecv()`: `finished` is what `recv_finished_callback_` calls.  The
flag says whether it was called. -/
def sendAndRecv (s : TCPServer P n) (receiving : ℕ → Answer) (finished : List (SocketPtr P × Call))
    (sending : ℕ → Answer) : Except PollFault (TCPServer P n × Bool) := do
  let (s, recv) ← s.sendAndRecvAll (paired s.receiveSockets receiving)
  let s ← (if recv then finished.foldlM callSocket s else .ok s)
  let (s, _) ← s.sendAndRecvAll (paired s.sendSockets sending)
  return (s, recv)

/-! ### What a round does to each socket -/

variable {s s' s'' : TCPServer P n} {ptr q : SocketPtr P} {socket : TCPSocket n} {a : Answer}
  {calls rest : List (SocketPtr P × Call)} {read recv : Bool}

omit [DecidableEq P] in
theorem live_iff : s.Live q ↔ (s.socketAt q).isSome := by
  cases q <;> simp [Live, socketAt]

theorem socketAt_setSocket : (s.setSocket ptr socket).socketAt q =
    if q = ptr then some socket else s.socketAt q := by
  cases ptr <;> cases q <;> simp [setSocket, socketAt, Function.update_apply]

theorem receiveSockets_setSocket : (s.setSocket ptr socket).receiveSockets = s.receiveSockets := by
  cases ptr <;> rfl

theorem sendSockets_setSocket : (s.setSocket ptr socket).sendSockets = s.sendSockets := by
  cases ptr <;> rfl

/-- The calls that are for a socket. -/
def callsOn (q : SocketPtr P) (calls : List (SocketPtr P × Call)) : List Call :=
  calls.filterMap fun x => if x.1 = q then some x.2 else none

theorem callsOn_append : callsOn q (calls ++ rest) = callsOn q calls ++ callsOn q rest :=
  List.filterMap_append

/-- **Calls on the sockets of a server.**  Each socket has answered those that
are for it, and the lists have not changed. -/
structure Called (s : TCPServer P n) (calls : List (SocketPtr P × Call)) (s' : TCPServer P n) :
    Prop where
  receiveSockets : s'.receiveSockets = s.receiveSockets
  sendSockets : s'.sendSockets = s.sendSockets
  dead : ∀ q, s.socketAt q = none → s'.socketAt q = none
  live : ∀ q socket, s.socketAt q = some socket →
    ∃ c, runCalls (callsOn q calls) ⟨socket, [], []⟩ = .ok c ∧ s'.socketAt q = some c.socket

/-- No calls leave the server as it is. -/
theorem Called.refl : Called s [] s where
  receiveSockets := rfl
  sendSockets := rfl
  dead _ := id
  live _ socket hq := ⟨⟨socket, [], []⟩, rfl, hq⟩

/-- Calls after calls are the calls of both in a row, for each of the sockets. -/
theorem Called.trans (h : Called s calls s') (h' : Called s' rest s'') :
    Called s (calls ++ rest) s'' where
  receiveSockets := h'.receiveSockets.trans h.receiveSockets
  sendSockets := h'.sendSockets.trans h.sendSockets
  dead q hq := h'.dead q (h.dead q hq)
  live q socket hq := by
    obtain ⟨c, hc, hq₁⟩ := h.live q socket hq
    obtain ⟨c', hc', hq₂⟩ := h'.live q c.socket hq₁
    refine ⟨c'.behind c.accepted c.passed, ?_, hq₂⟩
    rw [callsOn_append]
    exact runCalls_resume hc hc'

/-- Calls neither delete sockets nor make new ones. -/
theorem Called.live_iff (h : Called s calls s') : s'.Live q ↔ s.Live q := by
  rw [TCPServer.live_iff, TCPServer.live_iff]
  cases hq : s.socketAt q with
  | none => rw [h.dead q hq]
  | some socket =>
    obtain ⟨c, -, hq'⟩ := h.live q socket hq
    simp [hq']

/-- **A call on one socket** leaves the others, the dead ones, and both lists. -/
theorem called_of_callSocket {x : SocketPtr P × Call} (h : s.callSocket x = .ok s') :
    Called s [x] s' := by
  obtain ⟨ptr, call⟩ := x
  obtain ⟨socket, hd, h⟩ := bind_eq_ok.1 h
  obtain ⟨c, hc, h⟩ := bind_eq_ok.1 h
  obtain rfl := Except.ok.inj h
  have hd := deref_eq_ok.1 (mapError_eq_ok.1 hd)
  have hc := mapError_eq_ok.1 hc
  refine ⟨receiveSockets_setSocket, sendSockets_setSocket, fun q hq => ?_, fun q socket' hq => ?_⟩
  · rw [socketAt_setSocket, if_neg, hq]
    rintro rfl
    rw [hd] at hq
    cases hq
  · rw [socketAt_setSocket]
    by_cases hp : q = ptr
    · subst hp
      obtain rfl : socket = socket' := Option.some.inj (hd.symm.trans hq)
      refine ⟨c, ?_, if_pos rfl⟩
      simp [callsOn, runCalls, hc]
    · refine ⟨⟨socket', [], []⟩, ?_, by rw [if_neg hp, hq]⟩
      simp [callsOn, Ne.symm hp, runCalls]

/-- A list of calls makes each of them. -/
theorem called_of_callSockets (h : calls.foldlM callSocket s = .ok s') : Called s calls s' := by
  refine foldlM_induction (P := fun calls s' => Called s calls s') Called.refl ?_ h
  intro calls x s₁ s₂ _ hc hx
  exact hc.trans (called_of_callSocket hx)

/-- A `sendAndRecv` is the call, and tells whether anything was read. -/
theorem map_sendAndRecvOn :
    (s.sendAndRecvOn ptr a).map Prod.fst = s.callSocket (ptr, a.call) := by
  unfold sendAndRecvOn callSocket
  cases s.socketAt ptr with
  | none => rfl
  | some socket =>
    simp only [deref_some, Except.mapError, ok_bind, Answer.call, Call.run]
    cases (⟨socket, [], []⟩ : Connection n).sendAndRecv a.received
        (fun _ => runCalls a.callback) a.sent with
    | error e => rfl
    | ok c => rfl

/-- A loop over sockets calls each as often as it is in the list. -/
theorem called_of_sendAndRecvAll {sockets : List (SocketPtr P × Answer)}
    (h : s.sendAndRecvAll sockets = .ok (s', recv)) :
    Called s (sockets.map fun x => (x.1, x.2.call)) s' := by
  refine foldlM_induction
    (P := fun sockets st => Called s (sockets.map fun x => (x.1, x.2.call)) st.1)
    Called.refl ?_ h
  rintro sockets ⟨socket, a⟩ ⟨s₁, _⟩ ⟨s₂, _⟩ - hc hx
  obtain ⟨⟨s₃, read⟩, hs, hx⟩ := bind_eq_ok.1 hx
  obtain ⟨rfl, rfl⟩ := Prod.mk.inj (Except.ok.inj hx)
  rw [List.map_append]
  refine hc.trans (called_of_callSocket ?_)
  rw [← map_sendAndRecvOn, hs]
  rfl

/-- The calls of a round: on each socket to receive from, by
`recv_finished_callback_` if it is called, and on each socket to send to. -/
def roundCalls (s : TCPServer P n) (receiving : ℕ → Answer)
    (finished : List (SocketPtr P × Call)) (sending : ℕ → Answer) : List (SocketPtr P × Call) :=
  (paired s.receiveSockets receiving).map (fun x => (x.1, x.2.call)) ++ finished ++
    (paired s.sendSockets sending).map fun x => (x.1, x.2.call)

/-- **A round is its calls.** -/
theorem called_of_sendAndRecv {receiving sending : ℕ → Answer}
    (h : s.sendAndRecv receiving calls sending = .ok (s', recv)) :
    Called s (s.roundCalls receiving (if recv then calls else []) sending) s' := by
  obtain ⟨⟨s₁, b⟩, h₁, h⟩ := bind_eq_ok.1 h
  obtain ⟨s₂, h₂, h⟩ := bind_eq_ok.1 h
  obtain ⟨⟨s₃, _⟩, h₃, h⟩ := bind_eq_ok.1 h
  obtain ⟨rfl, rfl⟩ := Prod.mk.inj (Except.ok.inj h)
  have hreceive := called_of_sendAndRecvAll h₁
  have hfinish : Called s₁ (if b then calls else []) s₂ := by
    cases b with
    | false =>
      obtain rfl := Except.ok.inj h₂
      exact Called.refl
    | true => exact called_of_callSockets h₂
  have hsend := called_of_sendAndRecvAll h₃
  rw [hfinish.sendSockets, hreceive.sendSockets] at hsend
  exact (hreceive.trans hfinish).trans hsend

end TCPServer

end CppExchange
