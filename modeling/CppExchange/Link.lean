import CppExchange.Inbound

/-!
# The two ends of a connection

`TCPSocket` at both ends of a TCP connection, as in `standalone/socket_example.cpp`:
the client has one that it connected, the server one that it accepted.  What the
kernel has accepted at one end and `recvmsg` has not read at the other is on its
way, and `recvmsg` finds the next bytes of it, as many as have arrived.  The ends
make their calls in any order.

No byte that the kernel accepted is lost, read twice or out of order
(`Link.arrives_of_run`), so the bytes that one end was passed are those that the
other has taken, those in its inbound buffer, those on their way and those that
are still held, exactly when the kernel accepts all it is offered on the way.
-/

namespace CppExchange

open Library

/-- The ends of a connection. -/
inductive End
  | client
  | server
  deriving DecidableEq, Repr

/-- The other end. -/
def End.other : End → End
  | .client => .server
  | .server => .client

@[simp] theorem End.other_other (e : End) : e.other.other = e := by cases e <;> rfl

theorem End.other_ne (e : End) : e.other ≠ e := by cases e <;> decide

theorem End.eq_or_eq_other (e e' : End) : e' = e ∨ e' = e.other := by
  cases e <;> cases e' <;> decide

/-- The sockets at both ends, what is on its way to each, and what the callbacks
of each have taken. -/
structure Link (n : ℕ) where
  ends : End → Connection n
  toRead : End → List UInt8 := fun _ => []
  taken : End → List UInt8 := fun _ => []

namespace Link

variable {n : ℕ} {s s' : Link n} {fds : End → ℤ} {e : End} {call : Call}
  {actions : List (End × Call)} {action : End × Call}

/-- A connection with nothing on its way. -/
def new (n : ℕ) (fds : End → ℤ) : Link n where
  ends e := .opened n (fds e)

/-- A call at one end. -/
def step (s : Link n) (action : End × Call) : Except Fault (Link n) := do
  let (e, call) := action
  let before := s.ends e
  let events := call.inbound before
  let c ← call.run before
  return {
    ends := Function.update s.ends e c
    toRead := Function.update
      (Function.update s.toRead e ((s.toRead e).drop (Inbound.heard events).length))
      e.other (s.toRead e.other ++ c.accepted.drop before.accepted.length)
    taken := Function.update s.taken e (s.taken e ++ Inbound.taken events) }

/-- `recvmsg` finds the next bytes of those on their way. -/
def Allowed (s : Link n) (action : End × Call) : Prop :=
  Inbound.Draws (s.toRead action.1) (action.2.inbound (s.ends action.1))

instance : Decidable (s.Allowed action) := inferInstanceAs (Decidable (Inbound.Draws _ _))

/-- The calls at one end. -/
def callsAt (e : End) (actions : List (End × Call)) : List Call :=
  actions.filterMap fun action => if action.1 = e then some action.2 else none

/-! ### What the kernel accepts -/

/-- A call adds to the bytes accepted. -/
theorem accepted_run {c c' : Connection n} (h : call.run c = .ok c') :
    c.accepted <+: c'.accepted := by
  have hbehind : call.run (Connection.behind c.accepted c.passed ⟨c.socket, [], []⟩) =
      .ok c' := by
    simpa only [Connection.behind, List.append_nil] using h
  rw [Call.run_behind] at hbehind
  cases hr : call.run ⟨c.socket, [], []⟩ with
  | error fault =>
    rw [hr] at hbehind
    cases hbehind
  | ok c₁ =>
    rw [hr] at hbehind
    obtain rfl := Except.ok.inj hbehind
    exact List.prefix_append _ _

/-- The bytes that were accepted at each end are those that the other end has
taken or has in its buffer, and those on their way. -/
def Kept (s : Link n) : Prop :=
  ∀ e, s.taken e ++ (s.ends e).socket.inbox ++ s.toRead e = (s.ends e.other).accepted

theorem kept_new : (new n fds).Kept := fun _ =>
  @front_zero UInt8 n (TCPSocket.new n).inboundData n.zero_le

/-- **A call** at one end. -/
theorem Kept.step (h : s.Kept) (ha : s.Allowed action) (hs : s.step action = .ok s') :
    s'.Kept := by
  obtain ⟨e, call⟩ := action
  obtain ⟨c, hc, hs⟩ := bind_eq_ok.1 hs
  obtain rfl := Except.ok.inj hs
  have hinbox := Call.inbound_run call hc
  obtain ⟨later, hlater⟩ := Inbound.heard_prefix ha
  obtain ⟨bytes, hbytes⟩ := accepted_run hc
  have hne := e.other_ne
  intro e'
  rcases e.eq_or_eq_other e' with rfl | rfl
  · have hread : (s.toRead e').drop (Inbound.heard (call.inbound (s.ends e'))).length = later := by
      rw [← hlater, List.drop_left]
    simp only [Function.update_self, Function.update_of_ne hne, Function.update_of_ne hne.symm,
      hread]
    calc s.taken e' ++ Inbound.taken (call.inbound (s.ends e')) ++ c.socket.inbox ++ later
        = s.taken e' ++ (Inbound.taken (call.inbound (s.ends e')) ++ c.socket.inbox) ++ later := by
          simp only [List.append_assoc]
      _ = s.taken e' ++ (s.ends e').socket.inbox ++
            (Inbound.heard (call.inbound (s.ends e')) ++ later) := by
          rw [← hinbox]
          simp only [List.append_assoc]
      _ = (s.ends e'.other).accepted := by
          rw [hlater]
          exact h e'
  · have hsent : c.accepted.drop (s.ends e).accepted.length = bytes := by
      rw [← hbytes, List.drop_left]
    simp only [Function.update_self, Function.update_of_ne hne, End.other_other, hsent]
    rw [← List.append_assoc, h e.other, End.other_other, hbytes]

/-! ### Runs -/

/-- **Each end is in the state that its own calls lead to.** -/
theorem runCalls_callsAt (h : actions.foldlM step (new n fds) = .ok s) (e : End) :
    runCalls (callsAt e actions) (.opened n (fds e)) = .ok (s.ends e) := by
  refine foldlM_induction (P := fun actions s =>
    runCalls (callsAt e actions) (.opened n (fds e)) = .ok (s.ends e)) rfl ?_ h
  rintro actions ⟨e', call⟩ s s' - ih hs
  obtain ⟨c, hc, hs⟩ := bind_eq_ok.1 hs
  obtain rfl := Except.ok.inj hs
  rw [callsAt, List.filterMap_append, Connection.runCalls_append, ← callsAt, ih, ok_bind]
  by_cases he : e' = e
  · subst he
    simp only [List.filterMap_cons, if_pos, List.filterMap_nil, Function.update_self]
    rw [runCalls, hc]
    rfl
  · simp only [List.filterMap_cons, if_neg he, List.filterMap_nil,
      Function.update_of_ne (Ne.symm he)]
    rfl

/-- **What one end was passed arrives at the other.**  In every order of the
calls at both ends, the bytes that the kernel accepted at one end are the bytes
that the other has taken, those in its inbound buffer and those on their way;
and with those that are still held they are all that was passed to `send`,
exactly when the kernel took all that it was offered. -/
theorem arrives_of_run (ha : EachStep step Allowed (new n fds) actions)
    (h : actions.foldlM step (new n fds) = .ok s) (e : End) :
    s.taken e ++ (s.ends e).socket.inbox ++ s.toRead e = (s.ends e.other).accepted ∧
      (s.taken e ++ (s.ends e).socket.inbox ++ s.toRead e ++ (s.ends e.other).held =
          (s.ends e.other).passed ↔
        callsTakeAll (callsAt e.other actions) (.opened n (fds e.other))) := by
  have hkept : s.Kept := foldlM_invariant kept_new (fun _ _ _ hk ha hs => hk.step ha hs) ha h
  refine ⟨hkept e, ?_⟩
  rw [hkept e]
  exact Connection.lossless_iff_of_opened (runCalls_callsAt h e.other)

/-- A request, of which two bytes arrive first, and the answer to these. -/
def sampleActions : List (End × Call) :=
  [(.client, .send [1, 2, 3]), (.client, .sendAndRecv { data := [] } [] (.accepted 64)),
    (.server, .sendAndRecv { data := [1, 2] } [.consume, .send [9]] (.accepted 64)),
    (.client, .sendAndRecv { data := [9] } [.consume] .failed)]

/-- The request and its answer are an instance. -/
theorem arrives_of_sampleActions : ∃ s : Link tcpBufferSize,
    sampleActions.foldlM step (new tcpBufferSize fun _ => 5) = .ok s ∧
      s.taken .server ++ (s.ends .server).socket.inbox ++ s.toRead .server ++
        (s.ends .client).held = (s.ends .client).passed := by
  have hrun : (sampleActions.foldlM step (new tcpBufferSize fun _ => 5)).isOk = true := by
    decide +kernel
  obtain ⟨s, hs⟩ := exists_of_isOk hrun
  exact ⟨s, hs, (arrives_of_run (by decide +kernel) hs .server).2.2 (by decide +kernel)⟩

end Link

/-! ### The server at one end -/

namespace Serving

variable {P : Type} [DecidableEq P] {n : ℕ} {server : TCPServer P n}
  {actions : List (ServerAction P)} {s : Serving P n} {q : SocketPtr P} {socket : TCPSocket n}
  {link : Link n} {fds : End → ℤ} {calls : List (End × Call)}

/-- The server's end of a connection, with the calls that were made on its socket
there, is the socket that the server tracks. -/
theorem ends_of_run {kqueue socketFd port : ℤ} {kevent : KEvent P → Bool} {iface errno : String}
    (h₀ : (TCPServer.new P n).listen kqueue socketFd kevent iface port errno = .ok server)
    (ha : EachStep step Allowed (listening server) actions)
    (hsil : EachStep step Silent (listening server) actions)
    (h : actions.foldlM step (listening server) = .ok s)
    (hq : s.server.socketAt q = some socket)
    (hlink : calls.foldlM Link.step (.new n fds) = .ok link)
    (hcalls : Link.callsAt .server calls = s.history q) (hfd : fds .server = socket.socketFd) :
    (link.ends .server).socket = socket := by
  obtain ⟨c, hc, rfl⟩ := (consistent_of_run h₀ ha hsil h).alone q socket hq
  have hend := Link.runCalls_callsAt hlink .server
  rw [hcalls, hfd, hc] at hend
  rw [← Except.ok.inj hend]

end Serving

end CppExchange
