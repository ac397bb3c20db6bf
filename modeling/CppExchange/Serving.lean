import CppExchange.Rounds

/-!
# The server over a run

A run of `TCPServer` from `listen` on: polls, rounds, and calls that its owner
makes on sockets, in any order.  A receive callback makes calls on its own socket
only (`Answer`).  Beside the server stands what the kernel knows:
the changes that `kevent` took, none of which is ever taken back, as the server
closes no descriptor and registers nothing but reads.  So `kevent` may report a
descriptor again after an event for it has deleted its socket; the address it
comes with is then that of a dead socket, or of a new one that `new` put there.

As long as no descriptor is reported again, the sockets in memory are those of
the registrations that were not reported dead, each tracked once and served
alone (`Serving.consistent_of_run`, `Serving.alone_of_run`).  And no handler
touches a dead socket or the socket of another connection exactly as long as
that is so (`Serving.safe_iff_of_run`).
-/

namespace CppExchange

open Library

variable {P : Type}

/-- What `accept` asks of `kevent`. -/
def Accepted.change (a : Accepted P) : KEvent P where
  ident := a.fd
  filter := .read
  flags := evAdd ||| evEnable
  udata := .allocated a.address

/-- What `listen` asks of it. -/
def TCPServer.change {n : ℕ} (s : TCPServer P n) : KEvent P where
  ident := s.listenerSocket.socketFd
  filter := .read
  flags := evAdd ||| evEnable
  udata := .listener

/-- A server, the changes that `kevent` took, the descriptors that an event
reported dead, and the calls each socket has answered since it was made. -/
structure Serving (P : Type) (n : ℕ) where
  server : TCPServer P n
  registered : List (KEvent P)
  gone : List ℤ := []
  history : SocketPtr P → List Call := fun _ => []

/-- What is done with a server. -/
inductive ServerAction (P : Type)
  | poll (pending : List (KEvent P)) (accepts : List (Accepted P))
  | sendAndRecv (receiving : ℕ → Answer) (finished : List (SocketPtr P × Call))
      (sending : ℕ → Answer)
  | calls (calls : List (SocketPtr P × Call))

namespace Serving

variable [DecidableEq P] {n : ℕ}

/-- The server after `listen`. -/
def listening (server : TCPServer P n) : Serving P n where
  server
  registered := [server.change]

/-- The events of a batch that delete their sockets report their descriptors
dead. -/
def reported (s : Serving P n) (events : List (KEvent P)) : Serving P n :=
  { s with gone := s.gone ++ (events.filter fun event => event.Deletes).map KEvent.ident }

/-- New connections are registered, and nothing was called on their sockets. -/
def joined (s : Serving P n) (accepts : List (Accepted P)) : Serving P n :=
  { s with
    registered := s.registered ++ accepts.map Accepted.change
    history := fun q =>
      if ∃ a ∈ accepts, SocketPtr.allocated a.address = q then [] else s.history q }

/-- Calls are added to the history. -/
def called (s : Serving P n) (calls : List (SocketPtr P × Call)) : Serving P n :=
  { s with history := fun q => s.history q ++ TCPServer.callsOn q calls }

/-- Some event of a batch announces new connections. -/
def announces (events : List (KEvent P)) : Bool :=
  events.any fun event => event.filter = .read ∧ event.udata = .listener

/-- The connections that a poll accepts. -/
def accepting (s : Serving P n) (pending : List (KEvent P)) (accepts : List (Accepted P)) :
    List (Accepted P) :=
  if announces (s.server.batch pending) then accepts else []

/-- One action. -/
def step (s : Serving P n) : ServerAction P → Except PollFault (Serving P n)
  | .poll pending accepts => do
      let server ← s.server.poll pending accepts
      return { (s.reported (s.server.batch pending)).joined (s.accepting pending accepts) with
        server }
  | .sendAndRecv receiving finished sending => do
      let (server, recv) ← s.server.sendAndRecv receiving finished sending
      let finished := if recv then finished else []
      return { s.called (s.server.roundCalls receiving finished sending) with server }
  | .calls calls => do
      let server ← calls.foldlM TCPServer.callSocket s.server
      return { s.called calls with server }

/-- An event of a registration. -/
def Watched (s : Serving P n) (event : KEvent P) : Prop :=
  ∃ change ∈ s.registered, change.ident = event.ident ∧ change.filter = event.filter ∧
    change.udata = event.udata

instance {s : Serving P n} {event : KEvent P} : Decidable (s.Watched event) :=
  inferInstanceAs (Decidable (∃ change ∈ s.registered, _))

/-- What the kernel and the owner of the server do.  `kevent` reports a
registration once in a batch; `accept` returns descriptors that are not open,
and `new` addresses that are not in use when it is called; a callback and the
owner call live sockets (a receive callback its own). -/
def Allowed (s : Serving P n) : ServerAction P → Prop
  | .poll pending accepts =>
    (∀ event ∈ pending, s.Watched event) ∧
      (pending.map fun event => (event.ident, event.filter)).Nodup ∧
      (accepts.map Accepted.fd).Nodup ∧ (accepts.map Accepted.address).Nodup ∧
      ∀ a ∈ accepts, a.fd ∉ s.registered.map KEvent.ident ∧
        (¬s.server.Live (.allocated a.address) ∨
          ∃ event ∈ s.server.batch pending, event.Deletes ∧ event.udata = .allocated a.address)
  | .sendAndRecv _ finished _ => ∀ x ∈ finished, s.server.Live x.1
  | .calls calls => ∀ x ∈ calls, s.server.Live x.1

instance {s : Serving P n} : ∀ action, Decidable (s.Allowed action)
  | .poll _ _ => inferInstanceAs (Decidable (_ ∧ _))
  | .sendAndRecv _ finished _ => inferInstanceAs (Decidable (∀ x ∈ finished, s.server.Live x.1))
  | .calls calls => inferInstanceAs (Decidable (∀ x ∈ calls, s.server.Live x.1))

/-- No descriptor is reported again that was reported dead before. -/
def Silent (s : Serving P n) : ServerAction P → Prop
  | .poll pending _ => ∀ event ∈ s.server.batch pending, event.ident ∉ s.gone
  | _ => True

instance {s : Serving P n} : ∀ action, Decidable (s.Silent action)
  | .poll pending _ =>
    inferInstanceAs (Decidable (∀ event ∈ s.server.batch pending, event.ident ∉ s.gone))
  | .sendAndRecv _ _ _ => .isTrue trivial
  | .calls _ => .isTrue trivial

end Serving

namespace TCPServer

variable [DecidableEq P] {n : ℕ} {s s' : TCPServer P n}

/-- The descriptor of the socket a pointer points to. -/
def fdAt (s : TCPServer P n) (q : SocketPtr P) : Option ℤ :=
  (s.socketAt q).map TCPSocket.socketFd

/-- The handler works on the socket of the connection its event is about. -/
def UsesOwn (st : TCPServer P n × Bool) (event : KEvent P) : Prop :=
  st.1.fdAt event.udata = some event.ident

instance {st : TCPServer P n × Bool} {event : KEvent P} : Decidable (UsesOwn st event) :=
  inferInstanceAs (Decidable (_ = _))

end TCPServer

namespace Serving

variable [DecidableEq P] {n : ℕ}

/-- No handler works on a dead socket or on that of another connection, nothing
is deleted that is not there, and no call is made on what was deleted. -/
def Safe (s : Serving P n) : ServerAction P → Prop
  | .poll pending accepts =>
    EachStep TCPServer.handle TCPServer.UsesOwn (s.server, false) (s.server.batch pending) ∧
      s.server.poll pending accepts ≠ .error .badDelete
  | .sendAndRecv receiving finished sending =>
    s.server.sendAndRecv receiving finished sending ≠ .error (.fault .nullDeref)
  | .calls calls => calls.foldlM TCPServer.callSocket s.server ≠ .error (.fault .nullDeref)

/-- **What a server keeps.**  It has nothing to send to.  The sockets to receive
from are the live ones, each once.  The registrations are reads, of different
descriptors.  A pointer is that of a descriptor exactly when it is registered
for it and the descriptor was not reported dead.  The array of a poll has room
for the registrations but as many as were reported dead.  And each socket is in
the state that the calls on it lead a new one to. -/
structure Consistent (s : Serving P n) : Prop where
  idle : s.server.sendSockets = []
  nodup : s.server.receiveSockets.Nodup
  tracked : ∀ q, q ∈ s.server.receiveSockets ↔ q ≠ .listener ∧ s.server.Live q
  reads : ∀ change ∈ s.registered, change.filter = .read
  idents : (s.registered.map KEvent.ident).Nodup
  gone : ∀ fd ∈ s.gone, fd ∈ s.registered.map KEvent.ident
  owner : ∀ q fd, s.server.fdAt q = some fd ↔
    (∃ change ∈ s.registered, change.udata = q ∧ change.ident = fd) ∧ fd ∉ s.gone
  room : s.registered.length = s.server.maxEvents + s.gone.length
  alone : ∀ q socket, s.server.socketAt q = some socket → ∃ c,
    runCalls (s.history q) (.opened n socket.socketFd) = .ok c ∧
      c.socket = socket

end Serving

/-! ### One event -/

namespace TCPServer

variable [DecidableEq P] {n : ℕ} {s s' : TCPServer P n} {q : SocketPtr P} {p : P} {fd : ℤ}
  {event : KEvent P} {events : List (KEvent P)} {a : Accepted P} {b b' : Bool}

omit [DecidableEq P] in
theorem live_iff_fdAt : s.Live q ↔ (s.fdAt q).isSome := by
  rw [live_iff, fdAt, Option.isSome_map]

/-- The server without a socket. -/
def removed (s : TCPServer P n) (p : P) : TCPServer P n :=
  { s.untrack (.allocated p) with sockets := Function.update s.sockets p none }

/-- A deleted socket is gone, and no other one is. -/
theorem socketAt_removed :
    (s.removed p).socketAt q = if q = .allocated p then none else s.socketAt q := by
  cases q with
  | listener => simp [socketAt, removed, untrack]
  | allocated p' => simp [socketAt, removed, untrack, Function.update_apply]

theorem fdAt_removed : (s.removed p).fdAt q = if q = .allocated p then none else s.fdAt q := by
  rw [fdAt, socketAt_removed]
  split_ifs <;> rfl

/-- A list without repetition has one socket less. -/
theorem length_eraseRemove {sockets : List (SocketPtr P)} (hn : sockets.Nodup) (hm : q ∈ sockets) :
    (eraseRemove sockets q).length + 1 = sockets.length := by
  have he : eraseRemove sockets q = sockets.erase q := by
    rw [hn.erase_eq_filter, eraseRemove]
    exact List.filter_congr fun r _ => by by_cases hr : r = q <;> simp [hr]
  rw [he, List.length_erase_add_one hm]

/-- An event for a tracked socket tracks nothing new. -/
theorem track_of_mem (hf : event.filter = .read) (hm : event.udata ∈ s.receiveSockets) :
    s.track event = s := by
  simp [track, hf, pushBackNew, hm]

/-- The handler of an event for a live connection changes nothing. -/
theorem handle_of_not_deletes (hf : event.filter = .read)
    (hm : event.udata ≠ .listener → event.udata ∈ s.receiveSockets) (hd : ¬event.Deletes) :
    ∃ b', handle (s, b) event = .ok (s, b') := by
  by_cases hl : event.udata = .listener
  · exact ⟨true, by simp [handle, hf, hl]⟩
  · rcases handle_cases s b event with ⟨h, -⟩ | ⟨-, he | he⟩
    · exact absurd h hd
    · exact ⟨b, by rw [he, track_of_mem hf (hm hl)]⟩
    · exact ⟨true, he⟩

/-- The handler of an event for a dead one takes its socket away. -/
theorem handle_of_deletes (hf : event.filter = .read) (hm : event.udata ∈ s.receiveSockets)
    (hp : event.udata = .allocated p) (hl : s.Live event.udata) (hd : event.Deletes) :
    handle (s, b) event = .ok (s.removed p, b) := by
  rcases handle_cases s b event with ⟨-, he⟩ | ⟨h, -⟩
  · rw [he, track_of_mem hf hm, hp]
    rw [hp] at hl
    have hsome : ((s.untrack (.allocated p)).sockets p).isSome := hl
    simp only [deleteSocket, hsome, if_true, ok_bind]
    rfl
  · exact absurd hd h

/-- The flag of a handler. -/
theorem handle_flag (h : handle (s, b) event = .ok (s', b')) :
    b' = (b || decide (event.filter = .read ∧ event.udata = .listener)) := by
  unfold handle at h
  dsimp only at h
  split_ifs at h with hnew hdead
  · simp [(Prod.mk.inj (Except.ok.inj h)).2.symm, hnew]
  · obtain ⟨s₁, -, h⟩ := bind_eq_ok.1 h
    simp [(Prod.mk.inj (Except.ok.inj h)).2.symm, hnew]
  · simp [(Prod.mk.inj (Except.ok.inj h)).2.symm, hnew]

/-- The flag that `poll` sets says whether some event of the batch was for the
listener. -/
theorem handles_flag (h : events.foldlM handle (s, b) = .ok (s', b')) :
    b' = (b || Serving.announces events) := by
  induction events generalizing s b with
  | nil =>
    obtain ⟨-, rfl⟩ := Prod.mk.inj (Except.ok.inj h)
    simp [Serving.announces]
  | cons event events ih =>
    rw [List.foldlM_cons, bind_eq_ok] at h
    obtain ⟨⟨s₁, b₁⟩, hs, h⟩ := h
    rw [ih h, handle_flag hs, Bool.or_assoc]
    rfl

/-- A batch takes the sockets away that its events delete. -/
theorem handles_live (h : events.foldlM handle (s, b) = .ok (s', b')) :
    s'.Live q ↔ s.Live q ∧ ∀ event ∈ events, ¬(event.Deletes ∧ q = event.udata) := by
  induction events generalizing s b with
  | nil =>
    obtain ⟨rfl, -⟩ := Prod.mk.inj (Except.ok.inj h)
    simp
  | cons event events ih =>
    rw [List.foldlM_cons, bind_eq_ok] at h
    obtain ⟨⟨s₁, b₁⟩, hs, h⟩ := h
    rw [ih h, (handle_ok hs).2, List.forall_mem_cons, and_assoc]

/-- **A poll** is its batch, and then the connections that it announced. -/
theorem poll_of_handles {pending : List (KEvent P)} {accepts : List (Accepted P)}
    (h : (s.batch pending).foldlM handle (s, false) = .ok (s', b)) :
    s.poll pending accepts =
      (if Serving.announces (s.batch pending) then accepts else []).foldlM accept s' := by
  rw [poll, show pending.take s.maxEvents = s.batch pending from rfl, h, ok_bind,
    handles_flag h, Bool.false_or]
  dsimp only
  split_ifs <;> rfl

/-- The server with a new socket, tracked last. -/
def connected (s : TCPServer P n) (a : Accepted P) : TCPServer P n :=
  { s with
    sockets := Function.update s.sockets a.address (some { TCPSocket.new n with socketFd := a.fd })
    receiveSockets := s.receiveSockets ++ [.allocated a.address] }

theorem accept_ok (h : s.accept a = .ok s') : s' = s.connected a := by
  obtain ⟨_, -, h⟩ := bind_eq_ok.1 h
  obtain ⟨_, -, h⟩ := bind_eq_ok.1 h
  exact (Except.ok.inj h).symm

/-- A connected socket is new and has the descriptor that was accepted. -/
theorem socketAt_connected : (s.connected a).socketAt q =
    if q = .allocated a.address then some { TCPSocket.new n with socketFd := a.fd }
    else s.socketAt q := by
  cases q with
  | listener => simp [socketAt, connected]
  | allocated p => simp [socketAt, connected, Function.update_apply]

theorem fdAt_connected :
    (s.connected a).fdAt q = if q = .allocated a.address then some a.fd else s.fdAt q := by
  rw [fdAt, socketAt_connected]
  split_ifs <;> rfl

/-- Accepting deletes nothing. -/
theorem accepts_ne {accepts : List (Accepted P)} :
    accepts.foldlM accept s ≠ .error .badDelete := by
  induction accepts generalizing s with
  | nil => simp
  | cons a accepts ih =>
    rw [List.foldlM_cons]
    rcases accept_cases s a with ⟨f, he⟩ | ⟨socket, he⟩
    · simp [he]
    · rw [he, ok_bind]
      exact ih

end TCPServer

namespace Serving

variable [DecidableEq P] {n : ℕ} {s s' : Serving P n} {event : KEvent P} {events : List (KEvent P)}
  {a : Accepted P} {as : List (Accepted P)} {server : TCPServer P n} {b b' : Bool}

theorem reported_append {events' : List (KEvent P)} :
    s.reported (events ++ events') = (s.reported events).reported events' := by
  simp [reported]

omit [DecidableEq P] in
/-- What is registered is where it says it is. -/
theorem Consistent.owns (h : s.Consistent) (hw : s.Watched event) (hg : event.ident ∉ s.gone) :
    s.server.fdAt event.udata = some event.ident := by
  obtain ⟨change, hc, hi, -, hu⟩ := hw
  exact (h.owner _ _).2 ⟨⟨change, hc, hu, hi⟩, hg⟩

omit [DecidableEq P] in
/-- A descriptor is registered for one pointer. -/
theorem Consistent.udata_eq (h : s.Consistent) (hw : s.Watched event) {change : KEvent P}
    (hc : change ∈ s.registered) (hi : change.ident = event.ident) :
    change.udata = event.udata := by
  obtain ⟨change', hc', hi', -, hu⟩ := hw
  rw [List.inj_on_of_nodup_map h.idents hc hc' (hi.trans hi'.symm), hu]

/-- **The socket of a dead connection** goes, and the server keeps the rest. -/
theorem Consistent.removed {p : P} (h : s.Consistent) (hw : s.Watched event)
    (hg : event.ident ∉ s.gone) (hp : event.udata = .allocated p) (hd : event.Deletes) :
    Consistent { s.reported [event] with server := s.server.removed p } := by
  have hgone : (s.reported [event]).gone = s.gone ++ [event.ident] := by simp [reported, hd]
  have hown := h.owns hw hg
  have hmem : SocketPtr.allocated p ∈ s.server.receiveSockets := by
    rw [h.tracked, TCPServer.live_iff_fdAt, ← hp, hown]
    exact ⟨by simp [hp], rfl⟩
  refine ⟨?_, h.nodup.filter _, fun q => ?_, h.reads, h.idents, fun fd hfd => ?_,
    fun q fd => ?_, ?_, fun q socket hq => ?_⟩
  · show TCPServer.eraseRemove s.server.sendSockets _ = []
    rw [h.idle]
    rfl
  · rw [TCPServer.live_iff_fdAt, TCPServer.fdAt_removed]
    simp only [TCPServer.removed, TCPServer.untrack, TCPServer.eraseRemove, List.mem_filter,
      h.tracked, TCPServer.live_iff_fdAt, decide_eq_true_eq]
    split_ifs with hq <;> simp [hq]
  · rw [hgone, List.mem_append, List.mem_singleton] at hfd
    rcases hfd with hfd | rfl
    · exact h.gone fd hfd
    · obtain ⟨change, hc, hi, -⟩ := hw
      exact List.mem_map.2 ⟨change, hc, hi⟩
  · rw [TCPServer.fdAt_removed, hgone, List.mem_append, List.mem_singleton, not_or]
    show _ ↔ (∃ change ∈ s.registered, _) ∧ _
    split_ifs with hq
    · -- the pointer of the event is registered for the descriptor of the event only
      refine ⟨by simp, fun ⟨hex, hng, hne⟩ => absurd ?_ hne⟩
      have hfd := (h.owner q fd).2 ⟨hex, hng⟩
      rw [hq, ← hp, hown] at hfd
      exact (Option.some.inj hfd).symm
    · rw [h.owner]
      refine and_congr_right fun hex => (and_iff_left_of_imp fun _ hfd => hq ?_).symm
      obtain ⟨change, hc, hu, hi⟩ := hex
      rw [← hu, h.udata_eq hw hc (hi.trans hfd), hp]
  · show s.registered.length = _
    have hlen := TCPServer.length_eraseRemove h.nodup hmem
    rw [hgone, h.room, List.length_append, List.length_singleton]
    simp only [TCPServer.maxEvents, TCPServer.removed, TCPServer.untrack, h.idle]
    rw [show TCPServer.eraseRemove ([] : List (SocketPtr P)) (.allocated p) = [] from rfl]
    omega
  · rw [TCPServer.socketAt_removed] at hq
    split_ifs at hq
    exact h.alone q socket hq

/-- **The handler of an event** for a descriptor that was not reported dead works
on the socket of its connection, and the server keeps what it keeps. -/
theorem Consistent.handle (h : s.Consistent) (hw : s.Watched event) (hg : event.ident ∉ s.gone)
    (b : Bool) : TCPServer.UsesOwn (s.server, b) event ∧
      ∃ server b', TCPServer.handle (s.server, b) event = .ok (server, b') ∧
        Consistent { s.reported [event] with server } := by
  have hown := h.owns hw hg
  have hlive : s.server.Live event.udata := by rw [TCPServer.live_iff_fdAt, hown]; rfl
  have hread : event.filter = .read := by
    obtain ⟨change, hc, -, hf, -⟩ := hw
    rw [← hf, h.reads change hc]
  have hmem : event.udata ≠ .listener → event.udata ∈ s.server.receiveSockets := fun hne =>
    (h.tracked _).2 ⟨hne, hlive⟩
  refine ⟨hown, ?_⟩
  by_cases hd : event.Deletes
  · have hne : event.udata ≠ .listener := fun hl => hd.1 ⟨hread, hl⟩
    cases hp : event.udata with
    | listener => exact absurd hp hne
    | allocated p =>
      exact ⟨s.server.removed p, b, TCPServer.handle_of_deletes hread (hmem hne) hp hlive hd,
        h.removed hw hg hp hd⟩
  · obtain ⟨b', he⟩ := TCPServer.handle_of_not_deletes (b := b) hread hmem hd
    refine ⟨s.server, b', he, ?_⟩
    rwa [show ({ s.reported [event] with server := s.server } : Serving P n) = s by
      simp [reported, hd]]

/-! ### The events of a batch -/

/-- A descriptor that is not in a batch is dead after it if it was before. -/
theorem mem_gone_reported {fd : ℤ} (hfd : fd ∉ events.map KEvent.ident) :
    fd ∈ (s.reported events).gone ↔ fd ∈ s.gone := by
  simp only [reported, List.mem_append, or_iff_left_iff_imp]
  intro hm
  obtain ⟨event, he, rfl⟩ := List.mem_map.1 hm
  exact absurd (List.mem_map_of_mem (List.mem_filter.1 he).1) hfd

/-- **A batch of events** for descriptors that were not reported dead. -/
theorem Consistent.handles (h : s.Consistent) (hw : ∀ event ∈ events, s.Watched event)
    (hn : (events.map KEvent.ident).Nodup) (hg : ∀ event ∈ events, event.ident ∉ s.gone)
    (b : Bool) : EachStep TCPServer.handle TCPServer.UsesOwn (s.server, b) events ∧
      ∃ server b', events.foldlM TCPServer.handle (s.server, b) = .ok (server, b') ∧
        Consistent { s.reported events with server } := by
  induction events generalizing s b with
  | nil =>
    refine ⟨trivial, s.server, b, rfl, ?_⟩
    rwa [show ({ s.reported [] with server := s.server } : Serving P n) = s by simp [reported]]
  | cons event events ih =>
    rw [List.forall_mem_cons] at hw hg
    rw [List.map_cons, List.nodup_cons] at hn
    obtain ⟨huse, server₁, b₁, hs, h₁⟩ := h.handle hw.1 hg.1 b
    have hg₁ : ∀ later ∈ events, later.ident ∉ (s.reported [event]).gone := by
      intro later hm
      rw [mem_gone_reported]
      · exact hg.2 later hm
      · rw [List.map_singleton, List.mem_singleton]
        exact fun he => hn.1 (he ▸ List.mem_map_of_mem hm)
    obtain ⟨huses, server', b', hr, h'⟩ :=
      ih (s := { s.reported [event] with server := server₁ }) h₁ hw.2 hn.2 hg₁ b₁
    refine ⟨(EachStep.cons_of_ok hs).2 ⟨huse, huses⟩, server', b', ?_, ?_⟩
    · rw [List.foldlM_cons, hs, ok_bind, hr]
    · rwa [← List.singleton_append, reported_append]

/-- **When the handlers work on the sockets of their connections,** the events
were for descriptors that had not been reported dead. -/
theorem Consistent.silent_of_uses (h : s.Consistent) (hw : ∀ event ∈ events, s.Watched event)
    (hn : (events.map KEvent.ident).Nodup)
    (hu : EachStep TCPServer.handle TCPServer.UsesOwn (s.server, b) events) :
    ∀ event ∈ events, event.ident ∉ s.gone := by
  induction events generalizing s b with
  | nil => simp
  | cons event events ih =>
    rw [List.forall_mem_cons] at hw ⊢
    rw [List.map_cons, List.nodup_cons] at hn
    have hg : event.ident ∉ s.gone := ((h.owner _ _).1 hu.1).2
    obtain ⟨-, server₁, b₁, hs, h₁⟩ := h.handle hw.1 hg b
    refine ⟨hg, fun later hm => ?_⟩
    have hlater := ih (s := { s.reported [event] with server := server₁ }) h₁ hw.2 hn.2
      ((EachStep.cons_of_ok hs).1 hu).2 later hm
    refine fun hgone => hlater ((mem_gone_reported ?_).2 hgone)
    rw [List.map_singleton, List.mem_singleton]
    exact fun he => hn.1 (he ▸ List.mem_map_of_mem hm)

/-! ### The new connections -/

/-- The connections of a batch join one after the other. -/
theorem joined_cons : s.joined (a :: as) = (s.joined [a]).joined as := by
  simp only [joined, List.map_cons, List.map_nil, List.append_assoc, List.singleton_append,
    List.mem_cons, List.not_mem_nil, or_false, Serving.mk.injEq, true_and]
  funext q
  split_ifs <;> simp_all

/-- **A new connection** is registered and tracked, and nothing was called on its
socket. -/
theorem Consistent.accept (h : s.Consistent) (ha : a.fd ∉ s.registered.map KEvent.ident)
    (hl : ¬s.server.Live (.allocated a.address)) (hs : s.server.accept a = .ok server) :
    Consistent { s.joined [a] with server } := by
  obtain rfl := TCPServer.accept_ok hs
  have hreg : (s.joined [a]).registered = s.registered ++ [a.change] := rfl
  have hgone : a.fd ∉ s.gone := fun hg => ha (h.gone _ hg)
  have hfresh : s.server.fdAt (.allocated a.address) = none := by
    rwa [TCPServer.live_iff_fdAt, Bool.not_eq_true, Option.isSome_eq_false_iff,
      Option.isNone_iff_eq_none] at hl
  refine ⟨h.idle, ?_, fun q => ?_, fun change hc => ?_, ?_, fun fd hfd => ?_, fun q fd => ?_, ?_,
    fun q socket hq => ?_⟩
  · refine List.Nodup.append h.nodup (List.nodup_singleton _) ?_
    rw [List.disjoint_singleton, h.tracked]
    exact fun hm => hl hm.2
  · rw [TCPServer.live_iff_fdAt, TCPServer.fdAt_connected]
    simp only [TCPServer.connected, List.mem_append, List.mem_singleton, h.tracked,
      TCPServer.live_iff_fdAt]
    split_ifs with hq <;> simp [hq]
  · rw [hreg, List.mem_append, List.mem_singleton] at hc
    rcases hc with hc | rfl
    · exact h.reads change hc
    · rfl
  · rw [hreg, List.map_append, List.map_singleton]
    refine List.Nodup.append h.idents (List.nodup_singleton _) ?_
    rwa [List.disjoint_singleton]
  · rw [hreg, List.map_append, List.mem_append]
    exact Or.inl (h.gone fd hfd)
  · have hex : (∃ change ∈ s.registered ++ [a.change], change.udata = q ∧ change.ident = fd) ↔
        (∃ change ∈ s.registered, change.udata = q ∧ change.ident = fd) ∨
          SocketPtr.allocated a.address = q ∧ a.fd = fd := by
      simp only [List.mem_append, List.mem_singleton, or_and_right, exists_or, exists_eq_left]
      rfl
    rw [TCPServer.fdAt_connected, hreg, hex]
    show _ ↔ _ ∧ fd ∉ s.gone
    split_ifs with hq
    · subst hq
      have hold : ¬((∃ change ∈ s.registered, change.udata = .allocated a.address ∧
          change.ident = fd) ∧ fd ∉ s.gone) := by
        rw [← h.owner, hfresh]
        simp
      constructor
      · rintro ⟨rfl⟩
        exact ⟨Or.inr ⟨rfl, rfl⟩, hgone⟩
      · rintro ⟨hc | ⟨-, rfl⟩, hg⟩
        · exact absurd ⟨hc, hg⟩ hold
        · rfl
    · rw [h.owner, or_iff_left]
      exact fun hc => hq hc.1.symm
  · show (s.joined [a]).registered.length = _
    rw [hreg, List.length_append, h.room]
    simp only [TCPServer.maxEvents, TCPServer.connected, List.length_append]
    show _ = _ + s.gone.length
    simp only [List.length_singleton]
    omega
  · rw [TCPServer.socketAt_connected] at hq
    split_ifs at hq with hp
    · obtain rfl := Option.some.inj hq
      refine ⟨.opened n a.fd, ?_, rfl⟩
      simp [joined, hp, runCalls]
    · obtain ⟨c, hc, he⟩ := h.alone q socket hq
      refine ⟨c, ?_, he⟩
      simpa [joined, Ne.symm hp] using hc

/-- **All connections that a poll accepts,** at descriptors that are not open and
addresses that are not in use. -/
theorem Consistent.accepts (h : s.Consistent) (hfds : (as.map Accepted.fd).Nodup)
    (hads : (as.map Accepted.address).Nodup)
    (hfd : ∀ a ∈ as, a.fd ∉ s.registered.map KEvent.ident)
    (hl : ∀ a ∈ as, ¬s.server.Live (.allocated a.address))
    (hs : as.foldlM TCPServer.accept s.server = .ok server) :
    Consistent { s.joined as with server } := by
  induction as generalizing s with
  | nil =>
    obtain rfl := Except.ok.inj hs
    rwa [show ({ s.joined [] with server := s.server } : Serving P n) = s by simp [joined]]
  | cons a as ih =>
    rw [List.foldlM_cons, bind_eq_ok] at hs
    obtain ⟨server₁, ha, hs⟩ := hs
    rw [List.map_cons, List.nodup_cons] at hfds hads
    rw [List.forall_mem_cons] at hfd hl
    rw [joined_cons]
    refine ih (s := { s.joined [a] with server := server₁ }) (h.accept hfd.1 hl.1 ha) hfds.2 hads.2
      (fun a' ha' hm => ?_) (fun a' ha' hm => ?_) hs
    · have hm : a'.fd ∈ (s.registered ++ [a.change]).map KEvent.ident := hm
      rw [List.map_append, List.map_singleton, List.mem_append, List.mem_singleton] at hm
      rcases hm with hm | hm
      · exact hfd.2 a' ha' hm
      · exact hfds.1 ((show a'.fd = a.fd from hm) ▸ List.mem_map_of_mem ha')
    · obtain rfl := TCPServer.accept_ok ha
      rw [TCPServer.live_iff_fdAt, TCPServer.fdAt_connected] at hm
      split_ifs at hm with hp
      · rw [SocketPtr.allocated.injEq] at hp
        exact hads.1 (hp ▸ List.mem_map_of_mem ha')
      · exact hl.2 a' ha' (TCPServer.live_iff_fdAt.2 hm)

end Serving

/-! ### The calls -/

namespace TCPServer

variable [DecidableEq P] {n : ℕ} {s s' : TCPServer P n} {calls : List (SocketPtr P × Call)}
  {x : SocketPtr P × Call} {q : SocketPtr P} {sockets : List (SocketPtr P)} {answers : ℕ → Answer}

/-- Calls leave every descriptor where it is. -/
theorem Called.fdAt (h : Called s calls s') (q : SocketPtr P) : s'.fdAt q = s.fdAt q := by
  unfold TCPServer.fdAt
  cases hq : s.socketAt q with
  | none => rw [h.dead q hq]
  | some socket =>
    obtain ⟨c, hc, hq'⟩ := h.live q socket hq
    rw [hq', Option.map_some, Option.map_some, runCalls_socketFd _ hc]

/-- A call on a live socket goes through no dead pointer. -/
theorem callSocket_ne (hl : s.Live x.1) : s.callSocket x ≠ .error (.fault .nullDeref) := by
  obtain ⟨socket, hq⟩ := Option.isSome_iff_exists.1 (live_iff.1 hl)
  unfold callSocket
  rw [hq]
  cases hr : x.2.run (⟨socket, [], []⟩ : Connection n) with
  | error e => simp [Except.mapError, hr, Call.run_error x.2 hr]
  | ok c => simp [Except.mapError, hr]

/-- No call on a live socket goes through a dead pointer. -/
theorem callSockets_ne (hl : ∀ x ∈ calls, s.Live x.1) :
    calls.foldlM callSocket s ≠ .error (.fault .nullDeref) := by
  have heach : EachStep callSocket (fun _ x => s.Live x.1) s calls :=
    EachStep.of_prefixes fun done x rest _ he _ _ => hl x (by simp [he])
  refine foldlM_ne_error (P := fun s' => ∀ q, s'.Live q ↔ s.Live q) (fun _ => Iff.rfl)
    (fun s₁ x s₂ h₁ _ hx q => ?_) (fun s₁ x h₁ hx => ?_) heach
  · rw [(called_of_callSocket hx).live_iff, h₁]
  · exact callSocket_ne ((h₁ _).2 hx)

/-- A flush and read of a live socket goes through none. -/
theorem sendAndRecvOn_ne {ptr : SocketPtr P} {a : Answer} (hl : s.Live ptr) :
    s.sendAndRecvOn ptr a ≠ .error (.fault .nullDeref) := by
  intro h
  have hcall : _ = s.callSocket (ptr, a.call) := map_sendAndRecvOn
  rw [h] at hcall
  exact callSocket_ne hl hcall.symm

/-- **A loop over live sockets** goes through none, since calls leave them live.
-/
theorem sendAndRecvAll_ne {sockets : List (SocketPtr P × Answer)}
    (hl : ∀ x ∈ sockets, s.Live x.1) : s.sendAndRecvAll sockets ≠ .error (.fault .nullDeref) := by
  have heach : ∀ step, EachStep (σ := TCPServer P n × Bool) (ε := PollFault) step
      (fun _ x => s.Live x.1) (s, false) sockets := fun step =>
    EachStep.of_prefixes fun done x rest _ he _ _ => hl x (by simp [he])
  refine foldlM_ne_error (P := fun st => ∀ q, st.1.Live q ↔ s.Live q) (fun _ => Iff.rfl) ?_ ?_
    (heach _)
  · rintro ⟨s₁, _⟩ ⟨ptr, a⟩ ⟨s₂, _⟩ h₁ _ hx q
    obtain ⟨⟨s₃, read⟩, hs, hx⟩ := bind_eq_ok.1 hx
    obtain ⟨rfl, rfl⟩ := Prod.mk.inj (Except.ok.inj hx)
    have hcall : s₁.callSocket (ptr, a.call) = .ok s₃ := by
      rw [← map_sendAndRecvOn, hs]
      rfl
    rw [(called_of_callSocket hcall).live_iff, h₁]
  · rintro ⟨s₁, _⟩ ⟨ptr, a⟩ h₁ hx he
    rcases bind_eq_error.1 he with he | ⟨_, _, he⟩
    · exact sendAndRecvOn_ne ((h₁ _).2 hx) he
    · cases he

omit [DecidableEq P] in
theorem mem_paired {y : SocketPtr P × Answer} (h : y ∈ paired sockets answers) :
    y.1 ∈ sockets := by
  obtain ⟨i, hi, rfl⟩ := List.mem_mapIdx.1 h
  exact List.getElem_mem hi

omit [DecidableEq P] in
theorem paired_cons {socket : SocketPtr P} : paired (socket :: sockets) answers =
    (socket, answers 0) :: paired sockets fun i => answers (i + 1) :=
  List.mapIdx_cons

/-- A socket that a loop does not visit is not called. -/
theorem callsOn_paired_of_not_mem (hq : q ∉ sockets) :
    callsOn q ((paired sockets answers).map fun x => (x.1, x.2.call)) = [] := by
  refine List.filterMap_eq_nil_iff.2 fun x hx => if_neg ?_
  obtain ⟨y, hy, rfl⟩ := List.mem_map.1 hx
  exact fun he => hq (he ▸ mem_paired hy)

/-- A loop over sockets calls each of them once. -/
theorem callsOn_paired (hn : sockets.Nodup) {i : ℕ} (hi : sockets[i]? = some q) :
    callsOn q ((paired sockets answers).map fun x => (x.1, x.2.call)) = [(answers i).call] := by
  induction sockets generalizing i answers with
  | nil => cases hi
  | cons socket sockets ih =>
    rw [List.nodup_cons] at hn
    rw [paired_cons, List.map_cons, ← List.singleton_append, callsOn_append]
    cases i with
    | zero =>
      obtain rfl : socket = q := Option.some.inj hi
      rw [callsOn_paired_of_not_mem hn.1]
      simp [callsOn]
    | succ i =>
      have hi : sockets[i]? = some q := hi
      have hne : socket ≠ q := fun he => hn.1 (he ▸ List.mem_of_getElem? hi)
      rw [ih hn.2 hi]
      simp [callsOn, hne]

/-- **A round over live sockets** goes through no dead pointer. -/
theorem sendAndRecv_ne {receiving sending : ℕ → Answer} (hr : ∀ q ∈ s.receiveSockets, s.Live q)
    (hs : ∀ q ∈ s.sendSockets, s.Live q) (hl : ∀ x ∈ calls, s.Live x.1) :
    s.sendAndRecv receiving calls sending ≠ .error (.fault .nullDeref) := by
  intro h
  rcases bind_eq_error.1 h with h | ⟨⟨s₁, recv⟩, h₁, h⟩
  · exact sendAndRecvAll_ne (fun x hx => hr _ (mem_paired hx)) h
  have hreceive := called_of_sendAndRecvAll h₁
  rcases bind_eq_error.1 h with h | ⟨s₂, h₂, h⟩
  · split_ifs at h
    exact callSockets_ne (fun x hx => hreceive.live_iff.2 (hl x hx)) h
  have hfinish : ∃ calls, Called s₁ calls s₂ := by
    split_ifs at h₂
    · exact ⟨calls, called_of_callSockets h₂⟩
    · obtain rfl := Except.ok.inj h₂
      exact ⟨[], Called.refl⟩
  obtain ⟨_, hfinish⟩ := hfinish
  rcases bind_eq_error.1 h with h | ⟨_, _, h⟩
  · refine sendAndRecvAll_ne (fun x hx => ?_) h
    have hx := mem_paired hx
    rw [hfinish.sendSockets, hreceive.sendSockets] at hx
    exact hfinish.live_iff.2 (hreceive.live_iff.2 (hs _ hx))
  · cases h

end TCPServer

/-! ### The run -/

namespace Serving

variable [DecidableEq P] {n : ℕ} {s s' : Serving P n} {server : TCPServer P n}
  {action : ServerAction P} {actions : List (ServerAction P)} {calls : List (SocketPtr P × Call)}
  {pending : List (KEvent P)} {accepts : List (Accepted P)}

/-- The server keeps what it keeps when calls are made on its sockets. -/
theorem Consistent.called (h : s.Consistent) (hc : TCPServer.Called s.server calls server) :
    Consistent { s.called calls with server } where
  idle := hc.sendSockets.trans h.idle
  nodup := hc.receiveSockets ▸ h.nodup
  tracked q := by
    show q ∈ server.receiveSockets ↔ _ ∧ server.Live q
    rw [hc.receiveSockets, hc.live_iff, h.tracked]
  reads := h.reads
  idents := h.idents
  gone := h.gone
  owner q fd := by
    show server.fdAt q = some fd ↔ _
    rw [hc.fdAt]
    exact h.owner q fd
  room := by
    show s.registered.length = server.maxEvents + s.gone.length
    rw [h.room, TCPServer.maxEvents, TCPServer.maxEvents, hc.receiveSockets, hc.sendSockets]
  alone q socket hq := by
    cases hq₀ : s.server.socketAt q with
    | none => exact absurd (hc.dead q hq₀) (by rw [show server.socketAt q = _ from hq]; simp)
    | some socket₀ =>
      obtain ⟨c, hrun, rfl⟩ := h.alone q socket₀ hq₀
      obtain ⟨c', hrun', hq'⟩ := hc.live q c.socket hq₀
      obtain rfl : c'.socket = socket := Option.some.inj (hq'.symm.trans hq)
      refine ⟨c'.behind c.accepted c.passed, ?_, rfl⟩
      rw [runCalls_socketFd _ hrun']
      exact runCalls_resume hrun hrun'

/-- **A round calls `sendAndRecv` once** on each tracked socket, before what
`recv_finished_callback_` calls on it. -/
theorem Consistent.round (h : s.Consistent) {receiving sending : ℕ → Answer}
    {finished : List (SocketPtr P × Call)}
    (hs : s.step (.sendAndRecv receiving finished sending) = .ok s') :
    ∃ recv : Bool, ∀ i q, s.server.receiveSockets[i]? = some q → s'.history q = s.history q ++
      (receiving i).call :: TCPServer.callsOn q (if recv then finished else []) := by
  obtain ⟨⟨server, recv⟩, -, hs⟩ := bind_eq_ok.1 hs
  obtain rfl := Except.ok.inj hs
  refine ⟨recv, fun i q hi => ?_⟩
  show _ ++ TCPServer.callsOn q (s.server.roundCalls receiving _ sending) = _
  rw [TCPServer.roundCalls, h.idle, TCPServer.callsOn_append, TCPServer.callsOn_append,
    TCPServer.callsOn_paired h.nodup hi]
  simp [TCPServer.paired, TCPServer.callsOn]

omit [DecidableEq P] in
/-- The batch of a poll: of registrations, each reported once. -/
theorem Consistent.batch (h : s.Consistent) (ha : s.Allowed (.poll pending accepts)) :
    (∀ event ∈ s.server.batch pending, s.Watched event) ∧
      ((s.server.batch pending).map KEvent.ident).Nodup := by
  have hsub : (s.server.batch pending).Sublist pending := List.take_sublist _ _
  have hw : ∀ event ∈ s.server.batch pending, s.Watched event := fun event he =>
    ha.1 event (hsub.subset he)
  refine ⟨hw, ?_⟩
  refine List.Nodup.of_map (fun fd => (fd, EvFilt.read)) ?_
  have hread : (s.server.batch pending).map (fun event => (event.ident, event.filter)) =
      ((s.server.batch pending).map KEvent.ident).map fun fd => (fd, EvFilt.read) := by
    rw [List.map_map]
    refine List.map_congr_left fun event he => ?_
    obtain ⟨change, hc, -, hf, -⟩ := hw event he
    rw [← hf, h.reads change hc]
    rfl
  rw [← hread]
  exact ha.2.1.sublist (hsub.map _)

/-- **What an action keeps,** when it reports no dead descriptor again. -/
theorem Consistent.step (h : s.Consistent) (ha : s.Allowed action) (hsil : s.Silent action)
    (hs : s.step action = .ok s') : s'.Consistent := by
  cases action with
  | poll pending accepts =>
    obtain ⟨server, hpoll, hs⟩ := bind_eq_ok.1 hs
    obtain rfl := Except.ok.inj hs
    obtain ⟨hw, hn⟩ := h.batch ha
    obtain ⟨-, server₁, b, hr, h₁⟩ := h.handles hw hn hsil false
    rw [TCPServer.poll_of_handles hr] at hpoll
    obtain ⟨-, -, hfds, hads, hnew⟩ := ha
    have hsub : (s.accepting pending accepts).Sublist accepts := by
      unfold accepting
      split_ifs
      · exact List.Sublist.refl _
      · exact List.nil_sublist _
    refine h₁.accepts (hfds.sublist (hsub.map _)) (hads.sublist (hsub.map _))
      (fun a hm => (hnew a (hsub.subset hm)).1) (fun a hm hl => ?_) hpoll
    obtain ⟨hlive, hkept⟩ := (TCPServer.handles_live hr).1 hl
    rcases (hnew a (hsub.subset hm)).2 with hdead | ⟨event, he, hd, hu⟩
    · exact hdead hlive
    · exact hkept event he ⟨hd, hu.symm⟩
  | sendAndRecv receiving finished sending =>
    obtain ⟨⟨server, recv⟩, hr, hs⟩ := bind_eq_ok.1 hs
    obtain rfl := Except.ok.inj hs
    exact h.called (TCPServer.called_of_sendAndRecv hr)
  | calls calls =>
    obtain ⟨server, hr, hs⟩ := bind_eq_ok.1 hs
    obtain rfl := Except.ok.inj hs
    exact h.called (TCPServer.called_of_callSockets hr)

/-- **An action is safe** exactly when it reports no dead descriptor again. -/
theorem Consistent.safe_iff_silent (h : s.Consistent) (ha : s.Allowed action) :
    s.Safe action ↔ s.Silent action := by
  cases action with
  | poll pending accepts =>
    obtain ⟨hw, hn⟩ := h.batch ha
    refine ⟨fun hsafe => h.silent_of_uses hw hn hsafe.1, fun hsil => ?_⟩
    obtain ⟨huses, server₁, b, hr, -⟩ := h.handles hw hn hsil false
    refine ⟨huses, ?_⟩
    rw [TCPServer.poll_of_handles hr]
    exact TCPServer.accepts_ne
  | sendAndRecv receiving finished sending =>
    refine iff_of_true ?_ trivial
    exact TCPServer.sendAndRecv_ne (fun q hq => ((h.tracked q).1 hq).2) (by simp [h.idle]) ha
  | calls calls => exact iff_of_true (TCPServer.callSockets_ne ha) trivial

omit [DecidableEq P] in
/-- What `listen` leaves behind. -/
theorem consistent_listening {kqueue socketFd port : ℤ} {kevent : KEvent P → Bool}
    {iface errno : String}
    (h₀ : (TCPServer.new P n).listen kqueue socketFd kevent iface port errno = .ok server) :
    (listening server).Consistent := by
  obtain ⟨_, -, h₀⟩ := bind_eq_ok.1 h₀
  obtain ⟨_, -, h₀⟩ := bind_eq_ok.1 h₀
  obtain ⟨_, -, h₀⟩ := bind_eq_ok.1 h₀
  obtain rfl := Except.ok.inj h₀
  refine ⟨rfl, List.nodup_nil, fun q => ?_, fun change hc => ?_, List.nodup_singleton _,
    (fun fd hfd => by cases hfd), fun q fd => ?_, rfl, fun q socket hq => ?_⟩
  · cases q <;> simp [listening, TCPServer.new, TCPServer.Live]
  · rw [List.mem_singleton.1 hc]
    rfl
  · cases q <;> simp [listening, TCPServer.new, TCPServer.fdAt, TCPServer.socketAt,
      TCPServer.change]
  · cases q with
    | allocated p => cases hq
    | listener =>
      obtain rfl := Option.some.inj hq
      exact ⟨_, rfl, rfl⟩

section Run

variable {kqueue socketFd port : ℤ} {kevent : KEvent P → Bool} {iface errno : String}
  (h₀ : (TCPServer.new P n).listen kqueue socketFd kevent iface port errno = .ok server)
  (ha : EachStep step Allowed (listening server) actions)

include h₀ ha

/-- **When a server is safe.**  In every run from `listen` on, no handler works
on a dead socket or on that of another connection, nothing is deleted that is
not there, and no call goes through a dead pointer, exactly as long as `kevent`
does not report a descriptor again after an event for it deleted its socket. -/
theorem safe_iff_of_run : EachStep step Safe (listening server) actions ↔
    EachStep step Silent (listening server) actions :=
  EachStep.congr_of_keep (consistent_listening h₀)
    (fun _ _ _ h ha hsil hs => h.step ha hsil hs) (fun _ _ h ha => h.safe_iff_silent ha) ha

/-- **What a server keeps over a run** in which no dead descriptor is reported
again. -/
theorem consistent_of_run (hsil : EachStep step Silent (listening server) actions)
    (h : actions.foldlM step (listening server) = .ok s) : s.Consistent :=
  foldlM_invariant (consistent_listening h₀) (fun _ _ _ h hc hs => h.step hc.1 hc.2 hs)
    (ha.and hsil) h

/-- **Every connection is served alone,** as long as no dead descriptor is
reported again.  Each socket is in the state that the calls on it lead a new
socket to, whatever was called on the others, and has lost outgoing bytes
exactly when the kernel did not take all that one of these calls offered it. -/
theorem alone_of_run (hsil : EachStep step Silent (listening server) actions)
    (h : actions.foldlM step (listening server) = .ok s) {q : SocketPtr P} {socket : TCPSocket n}
    (hq : s.server.socketAt q = some socket) :
    ∃ c, runCalls (s.history q) (.opened n socket.socketFd) = .ok c ∧ c.socket = socket ∧
      (c.Lossless ↔ callsTakeAll (s.history q) (.opened n socket.socketFd)) := by
  obtain ⟨c, hc, he⟩ := (consistent_of_run h₀ ha hsil h).alone q socket hq
  exact ⟨c, hc, he, Connection.lossless_iff_of_opened hc⟩

end Run

/-- Two connections arrive, one of which is answered and then closed; the third
gets its address. -/
def sampleServing : List (ServerAction ℕ) :=
  [.poll [⟨4, .read, 0, .listener⟩] [{ fd := 5, address := 1 }, { fd := 6, address := 2 }],
   .sendAndRecv (fun i => if i = 0 then
      { received := { data := [7] }, callback := [.consume, .send [1, 2]], sent := .accepted 2 }
      else {}) [(.allocated 2, .send [3])] (fun _ => {}),
   .poll [⟨4, .read, 0, .listener⟩, ⟨5, .read, evEof, .allocated 1⟩] [{ fd := 7, address := 1 }],
   .calls [(.allocated 1, .send [9])]]

/-- The server that listens on descriptor 4. -/
def sampleServer : TCPServer ℕ tcpBufferSize :=
  { TCPServer.new ℕ tcpBufferSize with
    kqueueFd := 3
    listenerSocket := { TCPSocket.new tcpBufferSize with socketFd := 4 } }

theorem listen_sampleServer : (TCPServer.new ℕ tcpBufferSize).listen 3 4 (fun _ => true) "lo"
    12345 "" = .ok sampleServer := rfl

theorem safe_of_sampleServing : EachStep step Safe (listening sampleServer) sampleServing :=
  (safe_iff_of_run listen_sampleServer (by decide +kernel)).2 (by decide +kernel)

/-- The descriptor of the closed connection, reported. -/
def again : ServerAction ℕ := .poll [⟨5, .read, evEof, .allocated 1⟩] []

/-- Reported again, it takes the connection along that got its address, or
deletes what is not there. -/
example : (∃ s, (sampleServing ++ [again]).foldlM step (listening sampleServer) = .ok s ∧
      s.server.fdAt (.allocated 1) = none ∧ (7 : ℤ) ∉ s.gone) ∧
    (sampleServing.take 2 ++ [again, again]).foldlM step (listening sampleServer) =
      .error .badDelete := by
  decide +kernel

theorem sampleServing_returns :
    (sampleServing.foldlM step (listening sampleServer)).isOk = true := by decide +kernel

/-- The sample run is an instance. -/
theorem consistent_of_sampleServing :
    ∃ s, sampleServing.foldlM step (listening sampleServer) = .ok s ∧ s.Consistent :=
  let ⟨s, hs⟩ := exists_of_isOk sampleServing_returns
  ⟨s, hs, consistent_of_run listen_sampleServer (by decide +kernel) (by decide +kernel) hs⟩

/-- One of the connections is an instance. -/
theorem alone_of_sampleServing : ∃ s socket, ∃ c : Connection tcpBufferSize,
    sampleServing.foldlM step (listening sampleServer) = .ok s ∧
      s.server.socketAt (.allocated 2) = some socket ∧ c.socket = socket ∧
      (c.Lossless ↔ callsTakeAll (s.history (.allocated 2))
        (.opened tcpBufferSize socket.socketFd)) :=
  have h : ∃ s, sampleServing.foldlM step (listening sampleServer) = .ok s ∧
      (s.server.socketAt (.allocated 2)).isSome := by decide +kernel
  let ⟨s, hs, hq⟩ := h
  let ⟨socket, hsocket⟩ := Option.isSome_iff_exists.1 hq
  let ⟨c, _, he, hl⟩ := alone_of_run listen_sampleServer (by decide +kernel) (by decide +kernel)
    hs hsocket
  ⟨s, socket, c, hs, hsocket, he, hl⟩

end Serving

end CppExchange
