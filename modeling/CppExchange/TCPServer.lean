import CppExchange.TCPSocket

/-!
# The TCP server

`include/communication/tcp_server.h`: a listening socket, and the sockets of the
connections it accepted, allocated one by one and tracked in a list of those to
receive from and a list of those to send to.  `poll` handles the events that
`kevent` returns, one after the other, and then accepts the new connections.

A pointer to a socket points to the listening socket, a member of the server, or
to an allocated one; the heap says which of these have been allocated and not
deleted.  `delete` of anything else is a fault.  Which addresses new sockets get,
and what the kernel answers, are inputs of `poll`.

An event with `EV_ERROR` or `EV_EOF` deletes its socket at once, and the events
behind it in the batch may still name that socket.  So the server tracks and
deletes only live sockets exactly when an event that deletes its socket is the
last one for it (`TCPServer.safe_iff`).
-/

namespace CppExchange

open Library

/-- `EVFILT_READ` and `EVFILT_WRITE`. -/
inductive EvFilt
  | read
  | write
  deriving DecidableEq, Repr

/-- `EV_ADD`. -/
def evAdd : UInt16 := 0x0001

/-- `EV_ENABLE`. -/
def evEnable : UInt16 := 0x0004

/-- `EV_ERROR`. -/
def evError : UInt16 := 0x4000

/-- `EV_EOF`. -/
def evEof : UInt16 := 0x8000

/-- `TCPSocket *`: the listening socket, or the one allocated at an address. -/
inductive SocketPtr (P : Type)
  | listener
  | allocated (address : P)
  deriving DecidableEq

/-- `struct kevent`. -/
structure KEvent (P : Type) where
  ident : ℤ
  filter : EvFilt
  flags : UInt16
  udata : SocketPtr P

/-- The handler of the event deletes its socket: it is for a dead connection, and
no news from the listening socket. -/
def KEvent.Deletes {P : Type} (event : KEvent P) : Prop :=
  ¬(event.filter = .read ∧ event.udata = .listener) ∧ event.flags &&& (evError ||| evEof) ≠ 0

instance {P : Type} [DecidableEq P] (event : KEvent P) : Decidable event.Deletes :=
  inferInstanceAs (Decidable (_ ∧ _))

/-- Why `poll` did not return: it failed an `ASSERT`, or deleted what is not
there to delete. -/
inductive PollFault
  | fault (f : Fault)
  | badDelete
  deriving DecidableEq

/-- `ASSERT(cond, msg)` in the server. -/
def ensure (cond : Bool) (msg : String) : Except PollFault Unit :=
  (assert cond msg).mapError .fault

/-- A check passes or ends the program. -/
theorem ensure_cases (cond : Bool) (msg : String) :
    ensure cond msg = .ok () ∨ ∃ f, ensure cond msg = .error (.fault f) := by
  cases cond with
  | false => exact Or.inr ⟨_, rfl⟩
  | true => exact Or.inl rfl

/-- `TCPServer`, with the sockets in its memory. -/
structure TCPServer (P : Type) (n : ℕ) where
  kqueueFd : ℤ := -1
  listenerSocket : TCPSocket n
  receiveSockets : List (SocketPtr P) := []
  sendSockets : List (SocketPtr P) := []
  sockets : P → Option (TCPSocket n)

/-- A connection that `accept` returns: its file descriptor, the address that
`new TCPSocket()` gets, and what the kernel answers to what is done with it. -/
structure Accepted (P : Type) where
  fd : ℤ
  address : P
  setNonBlocking : Bool := true
  disableNagle : Bool := true
  kevent : KEvent P → Bool := fun _ => true
  errno : String := ""

namespace TCPServer

variable {P : Type} [DecidableEq P] {n : ℕ}

/-- `addToKqueueList(socket, filter, flags)`: whether `kevent` takes the change. -/
def addToKqueueList (kevent : KEvent P → Bool) (ptr : SocketPtr P) (socket : TCPSocket n)
    (filter : EvFilt) (flags : UInt16) : Bool :=
  kevent { ident := socket.socketFd, filter, flags, udata := ptr }

/-- `push_back`, unless `std::find` finds it. -/
def pushBackNew (sockets : List (SocketPtr P)) (socket : SocketPtr P) : List (SocketPtr P) :=
  if socket ∈ sockets then sockets else sockets ++ [socket]

/-- `erase` of what `std::remove` leaves behind. -/
def eraseRemove (sockets : List (SocketPtr P)) (socket : SocketPtr P) : List (SocketPtr P) :=
  sockets.filter (· ≠ socket)

/-- `delete socket`. -/
def deleteSocket (s : TCPServer P n) : SocketPtr P → Except PollFault (TCPServer P n)
  | .listener => .error .badDelete
  | .allocated p =>
      if (s.sockets p).isSome then .ok { s with sockets := Function.update s.sockets p none }
      else .error .badDelete

/-- What an event adds to the lists. -/
def track (s : TCPServer P n) (event : KEvent P) : TCPServer P n :=
  let s :=
    if event.filter = .read then
      { s with receiveSockets := pushBackNew s.receiveSockets event.udata }
    else s
  if event.filter = .write then { s with sendSockets := pushBackNew s.sendSockets event.udata }
  else s

/-- What a dead connection takes from them. -/
def untrack (s : TCPServer P n) (socket : SocketPtr P) : TCPServer P n :=
  { s with
    receiveSockets := eraseRemove s.receiveSockets socket
    sendSockets := eraseRemove s.sendSockets socket }

/-- The body of the loop over the events, with `have_new_connection`. -/
def handle (st : TCPServer P n × Bool) (event : KEvent P) :
    Except PollFault (TCPServer P n × Bool) :=
  let (s, haveNewConnection) := st
  let socket := event.udata
  if event.filter = .read ∧ socket = .listener then .ok (s, true)
  else do
    let s := s.track event
    if event.flags &&& (evError ||| evEof) ≠ 0 then
      let s ← (s.untrack socket).deleteSocket socket
      return (s, haveNewConnection)
    else return (s, haveNewConnection)

/-- The body of the loop that accepts connections. -/
def accept (s : TCPServer P n) (a : Accepted P) : Except PollFault (TCPServer P n) := do
  ensure (a.setNonBlocking && a.disableNagle)
    ("Failed to set non-blocking or no-delay on socket:" ++ toString a.fd)
  let socket := { TCPSocket.new n with socketFd := a.fd }
  let s := { s with sockets := Function.update s.sockets a.address (some socket) }
  ensure (addToKqueueList a.kevent (.allocated a.address) socket .read (evAdd ||| evEnable))
    ("Unable to add socket to kqueue. error:" ++ a.errno)
  return { s with receiveSockets := s.receiveSockets ++ [.allocated a.address] }

/-- `max_events`. -/
def maxEvents (s : TCPServer P n) : ℕ := 1 + s.sendSockets.length + s.receiveSockets.length

/-- `poll()`: `pending` are the events that `kevent` has, `accepts` the
connections that `accept` returns before it has no more. -/
def poll (s : TCPServer P n) (pending : List (KEvent P)) (accepts : List (Accepted P)) :
    Except PollFault (TCPServer P n) := do
  let (s, haveNewConnection) ← (pending.take s.maxEvents).foldlM handle (s, false)
  if haveNewConnection then accepts.foldlM accept s else return s

/-! ### Live sockets -/

variable {s s' : TCPServer P n} {b b' : Bool} {event : KEvent P} {events : List (KEvent P)}
  {sockets : List (SocketPtr P)} {socket q : SocketPtr P} {a : Accepted P}
  {accepts : List (Accepted P)}

/-- The pointer points to a socket that was not deleted. -/
def Live (s : TCPServer P n) : SocketPtr P → Prop
  | .listener => True
  | .allocated p => (s.sockets p).isSome

instance : Decidable (s.Live socket) :=
  match socket with
  | .listener => .isTrue trivial
  | .allocated p => inferInstanceAs (Decidable ((s.sockets p).isSome = true))

/-- A list holds only live sockets, without repetition. -/
structure Tracks (s : TCPServer P n) (sockets : List (SocketPtr P)) : Prop where
  nodup : sockets.Nodup
  live : ∀ q ∈ sockets, s.Live q

instance : Decidable (s.Tracks sockets) :=
  decidable_of_iff (sockets.Nodup ∧ ∀ q ∈ sockets, s.Live q)
    ⟨fun h => ⟨h.1, h.2⟩, fun h => ⟨h.nodup, h.live⟩⟩

/-- Both lists do. -/
structure Tidy (s : TCPServer P n) : Prop where
  receive : s.Tracks s.receiveSockets
  send : s.Tracks s.sendSockets

instance : Decidable s.Tidy :=
  decidable_of_iff (s.Tracks s.receiveSockets ∧ s.Tracks s.sendSockets)
    ⟨fun h => ⟨h.1, h.2⟩, fun h => ⟨h.receive, h.send⟩⟩

/-- A live socket can be tracked, once. -/
theorem Tracks.pushBackNew (h : s.Tracks sockets) (hl : s.Live socket) :
    s.Tracks (pushBackNew sockets socket) := by
  unfold TCPServer.pushBackNew
  split_ifs with hs
  · exact h
  · refine ⟨?_, fun q hq => ?_⟩
    · rw [← List.concat_eq_append]
      exact h.nodup.concat hs
    · rcases List.mem_append.1 hq with hq | hq
      · exact h.live q hq
      · rwa [List.mem_singleton.1 hq]

/-- A list stays right when a socket dies that is taken off it. -/
theorem Tracks.eraseRemove (h : s.Tracks sockets) (hl : ∀ q, s.Live q → q ≠ socket → s'.Live q) :
    s'.Tracks (eraseRemove sockets socket) := by
  refine ⟨h.nodup.filter _, fun q hq => ?_⟩
  obtain ⟨hq, hne⟩ := List.mem_filter.1 hq
  exact hl q (h.live q hq) (of_decide_eq_true hne)

omit [DecidableEq P] in
theorem Tracks.mono (h : s.Tracks sockets) (hl : ∀ q, s.Live q → s'.Live q) :
    s'.Tracks sockets := ⟨h.nodup, fun q hq => hl q (h.live q hq)⟩

/-- A read event is tracked for receiving, a write event is not. -/
theorem receiveSockets_track : (s.track event).receiveSockets =
    if event.filter = .read then pushBackNew s.receiveSockets event.udata
    else s.receiveSockets := by
  unfold track
  cases event.filter <;> rfl

/-- A write event is tracked for sending, a read event is not. -/
theorem sendSockets_track : (s.track event).sendSockets =
    if event.filter = .write then pushBackNew s.sendSockets event.udata else s.sendSockets := by
  unfold track
  cases event.filter <;> rfl

/-- Tracking allocates and deletes nothing. -/
theorem live_track : (s.track event).Live q ↔ s.Live q := by
  unfold track
  cases event.filter <;> exact Iff.rfl

/-- An event of a live socket keeps both lists tidy. -/
theorem Tidy.track (h : s.Tidy) (hl : s.Live event.udata) : (s.track event).Tidy := by
  have hkeep : ∀ q, s.Live q → (s.track event).Live q := fun q => live_track.2
  constructor
  · rw [receiveSockets_track]
    split_ifs
    · exact (h.receive.pushBackNew hl).mono hkeep
    · exact h.receive.mono hkeep
  · rw [sendSockets_track]
    split_ifs
    · exact (h.send.pushBackNew hl).mono hkeep
    · exact h.send.mono hkeep

theorem live_untrack : (s.untrack socket).Live q ↔ s.Live q := by
  cases q <;> exact Iff.rfl

/-- **A `delete` that returned** was of a live allocated socket, and that one is
not live any more. -/
theorem deleteSocket_ok (h : s.deleteSocket socket = .ok s') :
    socket ≠ .listener ∧ s'.receiveSockets = s.receiveSockets ∧
      s'.sendSockets = s.sendSockets ∧ ∀ q, s'.Live q ↔ s.Live q ∧ q ≠ socket := by
  cases socket with
  | listener => cases h
  | allocated p =>
    simp only [deleteSocket] at h
    split_ifs at h with hp
    obtain rfl := Except.ok.inj h
    refine ⟨by simp, rfl, rfl, fun q => ?_⟩
    cases q with
    | listener => simp [Live]
    | allocated p' =>
      by_cases hp' : p' = p
      · subst hp'
        simp [Live]
      · simp [Live, hp']

/-- A live socket that was allocated can be deleted. -/
theorem deleteSocket_total (hl : s.Live socket) (h : socket ≠ .listener) :
    ∃ s', s.deleteSocket socket = .ok s' := by
  cases socket with
  | listener => exact absurd rfl h
  | allocated p => exact ⟨_, if_pos hl⟩

/-- Deleting a socket fails in one way: there is no such socket. -/
theorem deleteSocket_error {e : PollFault} (h : s.deleteSocket socket = .error e) :
    e = .badDelete := by
  cases socket with
  | listener => exact (Except.error.inj h).symm
  | allocated p =>
    simp only [deleteSocket] at h
    split_ifs at h
    exact (Except.error.inj h).symm

/-! ### One event -/

/-- The handler, by what it does with the socket of the event. -/
theorem handle_cases (s : TCPServer P n) (b : Bool) (event : KEvent P) :
    event.Deletes ∧ handle (s, b) event =
        (((s.track event).untrack event.udata).deleteSocket event.udata >>= fun s => .ok (s, b)) ∨
      ¬event.Deletes ∧ (handle (s, b) event = .ok (s.track event, b) ∨
        handle (s, b) event = .ok (s, true)) := by
  unfold handle KEvent.Deletes
  dsimp only
  split_ifs with hnew hdead
  · exact Or.inr ⟨fun h => h.1 hnew, Or.inr rfl⟩
  · exact Or.inl ⟨⟨hnew, hdead⟩, rfl⟩
  · exact Or.inr ⟨fun h => hdead h.2, Or.inl rfl⟩

/-- A handler that returned deleted the socket of its event, if the event says
so, and no other. -/
theorem handle_ok (h : handle (s, b) event = .ok (s', b')) :
    (event.Deletes → event.udata ≠ .listener) ∧
      ∀ q, s'.Live q ↔ s.Live q ∧ ¬(event.Deletes ∧ q = event.udata) := by
  rcases handle_cases s b event with ⟨hd, he⟩ | ⟨hd, he | he⟩
  · rw [he, bind_eq_ok] at h
    obtain ⟨s₁, hs, h⟩ := h
    obtain ⟨rfl, rfl⟩ := Prod.mk.inj (Except.ok.inj h)
    obtain ⟨hne, -, -, hlive⟩ := deleteSocket_ok hs
    refine ⟨fun _ => hne, fun q => ?_⟩
    rw [hlive, live_untrack, live_track]
    simp [hd]
  · rw [he] at h
    obtain ⟨rfl, rfl⟩ := Prod.mk.inj (Except.ok.inj h)
    exact ⟨fun h => absurd h hd, fun q => by rw [live_track]; simp [hd]⟩
  · rw [he] at h
    obtain ⟨rfl, rfl⟩ := Prod.mk.inj (Except.ok.inj h)
    exact ⟨fun h => absurd h hd, fun q => by simp [hd]⟩

/-- It leaves the lists tidy when the socket of the event was live. -/
theorem Tidy.handle (ht : s.Tidy) (hl : s.Live event.udata)
    (h : handle (s, b) event = .ok (s', b')) : s'.Tidy := by
  rcases handle_cases s b event with ⟨-, he⟩ | ⟨-, he | he⟩
  · rw [he, bind_eq_ok] at h
    obtain ⟨s₁, hs, h⟩ := h
    obtain ⟨rfl, rfl⟩ := Prod.mk.inj (Except.ok.inj h)
    obtain ⟨-, hr, hw, hlive⟩ := deleteSocket_ok hs
    have hkeep : ∀ q, (s.track event).Live q → q ≠ event.udata → s₁.Live q := fun q hq hne =>
      (hlive q).2 ⟨live_untrack.2 hq, hne⟩
    have htrack := ht.track hl
    constructor
    · rw [hr]
      exact htrack.receive.eraseRemove hkeep
    · rw [hw]
      exact htrack.send.eraseRemove hkeep
  · rw [he] at h
    obtain ⟨rfl, rfl⟩ := Prod.mk.inj (Except.ok.inj h)
    exact ht.track hl
  · rw [he] at h
    obtain ⟨rfl, rfl⟩ := Prod.mk.inj (Except.ok.inj h)
    exact ht

/-- A handler returns when its socket is live and may be deleted. -/
theorem handle_total (hl : s.Live event.udata) (hd : event.Deletes → event.udata ≠ .listener) :
    ∃ st, handle (s, b) event = .ok st := by
  rcases handle_cases s b event with ⟨h, he⟩ | ⟨-, he | he⟩
  · obtain ⟨s', hs⟩ := deleteSocket_total (live_untrack.2 (live_track.2 hl)) (hd h)
    exact ⟨(s', b), by rw [he, hs, ok_bind]⟩
  · exact ⟨_, he⟩
  · exact ⟨_, he⟩

/-- An event fails in the same way, since a deletion is its only fallible step.
-/
theorem handle_error {e : PollFault} (h : handle (s, b) event = .error e) : e = .badDelete := by
  rcases handle_cases s b event with ⟨-, he⟩ | ⟨-, he | he⟩
  · rw [he, bind_eq_error] at h
    rcases h with h | ⟨_, -, h⟩
    · exact deleteSocket_error h
    · cases h
  · rw [he] at h
    cases h
  · rw [he] at h
    cases h

/-! ### The events of a batch -/

/-- Every event that deletes its socket is the last one for it, and none deletes
the listening socket. -/
def DeletesLast (events : List (KEvent P)) : Prop :=
  events.Pairwise (fun event later => event.Deletes → later.udata ≠ event.udata) ∧
    ∀ event ∈ events, event.Deletes → event.udata ≠ .listener

instance : Decidable (DeletesLast events) := inferInstanceAs (Decidable (_ ∧ _))

omit [DecidableEq P] in
/-- Of the events that follow, only those for the same socket matter to a
deletion. -/
theorem deletesLast_cons : DeletesLast (event :: events) ↔
    (event.Deletes → event.udata ≠ .listener ∧ ∀ later ∈ events, later.udata ≠ event.udata) ∧
      DeletesLast events := by
  simp only [DeletesLast, List.pairwise_cons, List.forall_mem_cons]
  constructor
  · rintro ⟨⟨hlast, hp⟩, hne, hall⟩
    exact ⟨fun hd => ⟨hne hd, fun later hm => hlast later hm hd⟩, hp, hall⟩
  · rintro ⟨hd, hp, hall⟩
    exact ⟨⟨fun later hm h => (hd h).2 later hm, hp⟩, fun h => (hd h).1, hall⟩

/-- The handler uses the socket of its event. -/
def UsesLive (st : TCPServer P n × Bool) (event : KEvent P) : Prop := st.1.Live event.udata

instance {st : TCPServer P n × Bool} : Decidable (UsesLive st event) :=
  inferInstanceAs (Decidable (st.1.Live event.udata))

/-- **A batch whose deletions come last** is handled to its end, on live
sockets. -/
theorem handles_of_deletesLast (ht : s.Tidy) (hl : ∀ event ∈ events, s.Live event.udata)
    (h : DeletesLast events) :
    EachStep handle UsesLive (s, b) events ∧ ∃ s' b',
      events.foldlM handle (s, b) = .ok (s', b') ∧ s'.Tidy ∧ ∀ q, s'.Live q → s.Live q := by
  induction events generalizing s b with
  | nil => exact ⟨trivial, s, b, rfl, ht, fun _ => id⟩
  | cons event events ih =>
    rw [List.forall_mem_cons] at hl
    rw [deletesLast_cons] at h
    obtain ⟨⟨s₁, b₁⟩, hs⟩ := handle_total (b := b) hl.1 (fun hd => (h.1 hd).1)
    have hlive := (handle_ok hs).2
    have hl₁ : ∀ later ∈ events, s₁.Live later.udata := fun later hm =>
      (hlive later.udata).2 ⟨hl.2 later hm, fun hd => (h.1 hd.1).2 later hm hd.2⟩
    obtain ⟨hc, s', b', hr, ht', hle⟩ := ih (ht.handle hl.1 hs) hl₁ h.2
    refine ⟨(EachStep.cons_of_ok hs).2 ⟨hl.1, hc⟩, s', b', ?_, ht', fun q hq => ?_⟩
    · rw [List.foldlM_cons, hs, ok_bind, hr]
    · exact ((hlive q).1 (hle q hq)).1

/-- **A batch handled on live sockets** has been about sockets that were live
from the start: no handler brings one to life. -/
theorem live_of_handles (hc : EachStep handle UsesLive (s, b) events)
    (h : events.foldlM handle (s, b) ≠ .error .badDelete) :
    ∀ event ∈ events, s.Live event.udata := by
  induction events generalizing s b with
  | nil => simp
  | cons event events ih =>
    rw [List.forall_mem_cons]
    refine ⟨hc.1, fun later hm => ?_⟩
    rw [List.foldlM_cons] at h
    cases hs : handle (s, b) event with
    | error e => exact absurd (by rw [hs, handle_error hs, error_bind]) h
    | ok st =>
      rw [hs, ok_bind] at h
      exact ((handle_ok hs).2 _).1 (ih ((EachStep.cons_of_ok hs).1 hc).2 h later hm) |>.1

/-- So its deletions came last. -/
theorem deletesLast_of_handles (hc : EachStep handle UsesLive (s, b) events)
    (h : events.foldlM handle (s, b) ≠ .error .badDelete) : DeletesLast events := by
  induction events generalizing s b with
  | nil => exact ⟨List.Pairwise.nil, by simp⟩
  | cons event events ih =>
    rw [List.foldlM_cons] at h
    rw [deletesLast_cons]
    cases hs : handle (s, b) event with
    | error e => exact absurd (by rw [hs, handle_error hs, error_bind]) h
    | ok st =>
      rw [hs, ok_bind] at h
      have hc' := ((EachStep.cons_of_ok hs).1 hc).2
      have hlive := live_of_handles hc' h
      obtain ⟨hne, hdead⟩ := handle_ok hs
      refine ⟨fun hd => ⟨hne hd, fun later hm he => ?_⟩, ih hc' h⟩
      exact ((hdead later.udata).1 (hlive later hm)).2 ⟨hd, he⟩

/-! ### The new connections -/

/-- What fails in the accepting loop is an assertion. -/
theorem accept_cases (s : TCPServer P n) (a : Accepted P) :
    (∃ f, s.accept a = .error (.fault f)) ∨ ∃ socket, s.accept a = .ok { s with
      sockets := Function.update s.sockets a.address (some socket)
      receiveSockets := s.receiveSockets ++ [.allocated a.address] } := by
  unfold accept
  dsimp only
  rcases ensure_cases (a.setNonBlocking && a.disableNagle)
    ("Failed to set non-blocking or no-delay on socket:" ++ toString a.fd) with h | ⟨f, h⟩
  · rw [h, ok_bind]
    rcases ensure_cases (addToKqueueList a.kevent (.allocated a.address)
        { TCPSocket.new n with socketFd := a.fd } .read (evAdd ||| evEnable))
      ("Unable to add socket to kqueue. error:" ++ a.errno) with h' | ⟨f, h'⟩
    · exact Or.inr ⟨_, by rw [h', ok_bind]; rfl⟩
    · exact Or.inl ⟨f, by rw [h', error_bind]⟩
  · exact Or.inl ⟨f, by rw [h, error_bind]⟩

/-- The socket of a new connection at a fresh address is tracked once. -/
theorem Tidy.accept (h : s.Tidy) (ha : ¬s.Live (.allocated a.address))
    (hs : s.accept a = .ok s') :
    s'.Tidy ∧ ∀ q, s'.Live q ↔ s.Live q ∨ q = .allocated a.address := by
  rcases accept_cases s a with ⟨f, he⟩ | ⟨socket, he⟩
  · rw [he] at hs
    cases hs
  · rw [he] at hs
    obtain rfl := Except.ok.inj hs
    have hlive : ∀ q, (⟨s.kqueueFd, s.listenerSocket, s.receiveSockets ++ [.allocated a.address],
        s.sendSockets, Function.update s.sockets a.address (some socket)⟩ : TCPServer P n).Live q ↔
          s.Live q ∨ q = .allocated a.address := by
      intro q
      cases q with
      | listener => simp [Live]
      | allocated p =>
        by_cases hp : p = a.address
        · subst hp
          simp [Live]
        · simp [Live, hp]
    have hfresh : SocketPtr.allocated a.address ∉ s.receiveSockets := fun hm =>
      ha (h.receive.live _ hm)
    refine ⟨⟨⟨?_, fun q hq => ?_⟩, h.send.mono fun q hq => (hlive q).2 (Or.inl hq)⟩, hlive⟩
    · rw [← List.concat_eq_append]
      exact h.receive.nodup.concat hfresh
    · rcases List.mem_append.1 hq with hq | hq
      · exact (hlive q).2 (Or.inl (h.receive.live q hq))
      · exact (hlive q).2 (Or.inr (List.mem_singleton.1 hq))

/-- The addresses that new sockets get are different and not in use. -/
def Fresh (s : TCPServer P n) (accepts : List (Accepted P)) : Prop :=
  (accepts.map Accepted.address).Nodup ∧ ∀ a ∈ accepts, ¬s.Live (.allocated a.address)

instance : Decidable (s.Fresh accepts) := inferInstanceAs (Decidable (_ ∧ _))

/-- **The accepting loop** keeps the lists tidy, or fails an assertion. -/
theorem accepts_total (ht : s.Tidy) (hf : s.Fresh accepts) :
    (∃ f, accepts.foldlM accept s = .error (.fault f)) ∨
      ∃ s', accepts.foldlM accept s = .ok s' ∧ s'.Tidy := by
  induction accepts generalizing s with
  | nil => exact Or.inr ⟨s, rfl, ht⟩
  | cons a accepts ih =>
    obtain ⟨hn, hl⟩ := hf
    rw [List.map_cons, List.nodup_cons] at hn
    rw [List.forall_mem_cons] at hl
    rw [List.foldlM_cons]
    cases hs : s.accept a with
    | error e =>
      refine Or.inl ?_
      rcases accept_cases s a with ⟨f, he⟩ | ⟨socket, he⟩
      · exact ⟨f, by rw [← hs, he, error_bind]⟩
      · rw [he] at hs
        cases hs
    | ok s₁ =>
      obtain ⟨ht₁, hlive⟩ := ht.accept hl.1 hs
      refine ih ht₁ ⟨hn.2, fun a' ha' h => ?_⟩
      rcases (hlive _).1 h with h | h
      · exact hl.2 a' ha' h
      · rw [SocketPtr.allocated.injEq] at h
        exact hn.1 (List.mem_map.2 ⟨a', ha', h⟩)

/-! ### The poll -/

/-- The events that `kevent` returns. -/
def batch (s : TCPServer P n) (pending : List (KEvent P)) : List (KEvent P) :=
  pending.take s.maxEvents

/-- No handler uses a socket that was deleted, nothing is deleted that is not
there, and the lists are tidy when `poll` returns. -/
structure Safe (s : TCPServer P n) (pending : List (KEvent P)) (accepts : List (Accepted P)) :
    Prop where
  uses : EachStep handle UsesLive (s, false) (s.batch pending)
  deletes : s.poll pending accepts ≠ .error .badDelete
  tidy : ∀ s', s.poll pending accepts = .ok s' → s'.Tidy

/-- **When a poll is safe.**  From lists that hold only live sockets without
repetition, with events for sockets that are live and new sockets at fresh
addresses, `poll` touches no dead socket and leaves such lists exactly when, in
the batch, every event that deletes its socket is the last one for it, and none
deletes the listening socket. -/
theorem safe_iff {pending : List (KEvent P)} (ht : s.Tidy)
    (hl : ∀ event ∈ s.batch pending, s.Live event.udata) (hf : s.Fresh accepts) :
    Safe s pending accepts ↔ DeletesLast (s.batch pending) := by
  constructor
  · rintro ⟨huses, hdel, -⟩
    refine deletesLast_of_handles huses fun he => hdel ?_
    rw [poll, show pending.take s.maxEvents = s.batch pending from rfl, he, error_bind]
  · intro h
    obtain ⟨huses, s₁, b₁, hr, ht₁, hle⟩ := handles_of_deletesLast (b := false) ht hl h
    have hpoll : s.poll pending accepts =
        if b₁ then accepts.foldlM accept s₁ else .ok s₁ := by
      rw [poll, show pending.take s.maxEvents = s.batch pending from rfl, hr, ok_bind]
      rfl
    have hf₁ : s₁.Fresh accepts := ⟨hf.1, fun a ha hq => hf.2 a ha (hle _ hq)⟩
    cases b₁ with
    | false =>
      refine ⟨huses, by simp [hpoll], fun s' hs => ?_⟩
      rw [hpoll] at hs
      exact Except.ok.inj hs ▸ ht₁
    | true =>
      rcases accepts_total ht₁ hf₁ with ⟨f, he⟩ | ⟨s₂, he, ht₂⟩
      · exact ⟨huses, by simp [hpoll, he], fun s' hs => by simp [hpoll, he] at hs⟩
      · refine ⟨huses, by simp [hpoll, he], fun s' hs => ?_⟩
        rw [hpoll, if_pos rfl, he] at hs
        exact Except.ok.inj hs ▸ ht₂

/-- Two connections, received from. -/
def twoConnections : TCPServer ℕ tcpBufferSize where
  kqueueFd := 3
  listenerSocket := { TCPSocket.new tcpBufferSize with socketFd := 4 }
  receiveSockets := [.allocated 1, .allocated 2]
  sockets := fun p => if p = 1 ∨ p = 2 then some (TCPSocket.new tcpBufferSize) else none

/-- The second becomes writable, the first is closed, a third arrives. -/
theorem safe_thirdConnection : Safe twoConnections
    [⟨6, .write, 0, .allocated 2⟩, ⟨4, .read, 0, .listener⟩, ⟨5, .read, evEof, .allocated 1⟩]
    [{ fd := 7, address := 3 }] :=
  (safe_iff (by decide +kernel) (by decide +kernel) (by decide +kernel)).2 (by decide +kernel)

/-- The end of the stream on the first connection, and then that it is writable. -/
def eofThenWritable : List (KEvent ℕ) :=
  [⟨5, .read, evEof, .allocated 1⟩, ⟨5, .write, 0, .allocated 1⟩]

/-- **A deleted socket is tracked again,** by the second of two events that are
for different filters of a live socket. -/
theorem not_safe_eofThenWritable :
    (twoConnections.Tidy ∧ twoConnections.batch eofThenWritable = eofThenWritable ∧
      (∀ event ∈ eofThenWritable, twoConnections.Live event.udata) ∧
      (eofThenWritable.map fun event => (event.udata, event.filter)).Nodup) ∧
    ¬Safe twoConnections eofThenWritable [] := by
  refine ⟨⟨by decide +kernel, rfl, by decide +kernel, by decide +kernel⟩, fun h => ?_⟩
  have hpoll : ∃ s, twoConnections.poll eofThenWritable [] = .ok s ∧
      .allocated 1 ∈ s.sendSockets ∧ ¬s.Live (.allocated 1) := by
    decide +kernel
  obtain ⟨s, hs, hmem, hdead⟩ := hpoll
  exact hdead ((h.tidy s hs).send.live _ hmem)

end TCPServer

end CppExchange
