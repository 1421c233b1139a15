import Loglib.Pipeline.LineBytesQueue

/-! The TCP producer: many sessions, each with the start of a line of its own, and one queue of
whole lines. -/

namespace Loglib

/-- The asynchronous operation that a session waits for. -/
inductive SessionWait where
  | handshake
  | read
  /-- A read that was started on a closed socket and can only fail. -/
  | failingRead
  | nothing
deriving DecidableEq, Repr

/-- `Session`, with the bytes it has received. -/
structure PeerSession where
  /-- `mCarry`. -/
  carry : Bytes
  finalized : Bool
  socketOpen : Bool
  wait : SessionWait
  received : Bytes

namespace PeerSession

/-- `DoRead`. -/
def doRead (session : PeerSession) : PeerSession :=
  { session with wait := if session.socketOpen then .read else .failingRead }

/-- `Start`. -/
def start (tls : Bool) : PeerSession :=
  let session : PeerSession := ⟨[], false, true, .nothing, []⟩
  if tls then { session with wait := .handshake } else session.doRead

/-- The carry through its last newline, which `OnRead` forwards. -/
def completeLines (session : PeerSession) : Bytes :=
  joinLines newline (splitLines newline session.carry).1

/-- The session when its complete lines have been forwarded. -/
def keepPartial (session : PeerSession) : PeerSession :=
  { session with carry := (splitLines newline session.carry).2 }

/-- What `Finalize` forwards: the carry with a newline behind it. -/
def lastLine (session : PeerSession) : Bytes :=
  if session.carry = [] then []
  else if session.carry.getLast? = some newline then session.carry
  else session.carry ++ [newline]

/-- The session after `Finalize`: its socket is closed, and it waits for nothing. -/
def ended (session : PeerSession) : PeerSession :=
  { session with carry := [], finalized := true, socketOpen := false, wait := .nothing }

end PeerSession

/-- `TcpServerProducerImpl`, with what it has appended for each session and what its
consumer has got. -/
structure TcpServer where
  /-- `maxQueueBytes`. -/
  cap : Nat
  /-- `maxConcurrentClients`. -/
  maxClients : Nat
  tls : Bool
  /-- `mReadyBuffer`. -/
  queue : LineBytesQueue
  dropped : Nat
  /-- Every session that was admitted, by its number. -/
  sessions : List PeerSession
  /-- The keys of `mActiveSessions`. -/
  active : List Nat
  accepting : Bool
  stopRequested : Bool
  /-- The work that `Stop` has posted has not run yet. -/
  closePosted : Bool
  appends : List (Nat × Bytes)
  delivered : Bytes

/-- How an accept ends. -/
inductive AcceptResult where
  | socket
  | failed
  | aborted
deriving DecidableEq, Repr

/-- A completion handler on the worker thread, a `Stop`, or a read of the consumer. -/
inductive TcpMove where
  | accepted (result : AcceptResult)
  | handshaken (id : Nat) (ok : Bool)
  /-- `OnRead`: the bytes that came in, or an error. -/
  | readDone (id : Nat) (result : Option Bytes)
  | stop
  | closeSockets
  | read (bufferSize : Nat)

namespace TcpServer

/-- The producer when its constructor is done. -/
def start (cap maxClients : Nat) (tls : Bool) : TcpServer :=
  ⟨cap, maxClients, tls, .empty, 0, [], [], true, false, false, [], []⟩

/-- `OnSessionLines`. -/
def onSessionLines (server : TcpServer) (id : Nat) (lines : Bytes) : TcpServer :=
  if lines = [] then server
  else
    let (queue, dropped) := server.queue.append lines server.cap
    { server with
      queue
      dropped := server.dropped + dropped
      appends := server.appends ++ [(id, lines)] }

/-- The session with a number has changed. -/
def setSession (server : TcpServer) (id : Nat) (session : PeerSession) : TcpServer :=
  { server with sessions := server.sessions.set id session }

/-- `OnSessionEnded`. -/
def onSessionEnded (server : TcpServer) (id : Nat) : TcpServer :=
  { server with active := server.active.erase id }

/-- `Finalize`. -/
def finalize (server : TcpServer) (id : Nat) (session : PeerSession) : TcpServer :=
  if session.finalized then server
  else ((server.onSessionLines id session.lastLine).setSession id session.ended).onSessionEnded id

/-- `OnRead` without an error. Without a newline there are no complete lines, and nothing is
forwarded. -/
def onRead (server : TcpServer) (id : Nat) (session : PeerSession) (bytes_ : Bytes) : TcpServer :=
  if bytes_ = [] then server.setSession id session.doRead
  else
    let grown := { session with
      carry := session.carry ++ bytes_
      received := session.received ++ bytes_ }
    (server.onSessionLines id grown.completeLines).setSession id grown.keepPartial.doRead

/-- `StartAccept`. -/
def startAccept (server : TcpServer) : TcpServer :=
  if server.stopRequested then server else { server with accepting := true }

/-- `AdmitOrReject`, and what `OnAcceptPlain` and `OnAcceptTls` do with an admitted socket. -/
def admitSession (server : TcpServer) : TcpServer :=
  if server.maxClients ≤ server.active.length then server
  else
    { server with
      sessions := server.sessions ++ [.start server.tls]
      active := server.active ++ [server.sessions.length] }

/-- `OnAcceptPlain` and `OnAcceptTls`. -/
def onAccept (server : TcpServer) (result : AcceptResult) : TcpServer :=
  let server := { server with accepting := false }
  if server.stopRequested then server
  else
    match result with
    | .socket => server.admitSession.startAccept
    | .failed => server.startAccept
    | .aborted => server

/-- The work that `Stop` posts: close the sockets of the active sessions. -/
def closeSockets (server : TcpServer) : TcpServer :=
  { server with
    closePosted := false
    sessions := server.sessions.mapIdx fun id session =>
      if id ∈ server.active then { session with socketOpen := false } else session }

/-- One move. A handler runs when its operation is pending; an operation that had succeeded before
its socket was closed still succeeds. -/
def step (server : TcpServer) : TcpMove → Option TcpServer
  | .accepted result => if server.accepting then some (server.onAccept result) else none
  -- A session whose handshake fails ends like one whose read fails.
  | .handshaken id ok => do
    let session ← server.sessions[id]?
    if session.wait = .handshake then
      if ok then some (server.setSession id session.doRead) else some (server.finalize id session)
    else none
  | .readDone id result => do
    let session ← server.sessions[id]?
    match result with
    | some bytes_ => if session.wait = .read then some (server.onRead id session bytes_) else none
    | none =>
      if session.wait = .read ∨ session.wait = .failingRead then some (server.finalize id session)
      else none
  -- The stop is only posted; the sockets are closed by the network thread.
  | .stop =>
    if server.stopRequested then some server
    else some { server with stopRequested := true, closePosted := true }
  | .closeSockets => if server.closePosted then some server.closeSockets else none
  | .read bufferSize =>
    let (copied, queue) := server.queue.read bufferSize
    some { server with queue, delivered := server.delivered ++ copied }

/-- All bytes that were appended for a session. -/
def sentFor (server : TcpServer) (id : Nat) : Bytes :=
  (server.appends.filter (·.1 = id)).flatMap (·.2)

end TcpServer

namespace PeerSession

/-- The bytes received, with a newline behind a last line that has none. -/
def endLine (received : Bytes) : Bytes :=
  if (splitLines newline received).2 = [] then received else received ++ [newline]

/-- What has to be in the queue for a session: its whole lines, and in the end everything. -/
def due (session : PeerSession) : Bytes :=
  if session.finalized then endLine session.received
  else joinLines newline (splitLines newline session.received).1

/-- What a session has sent so far agrees with what it has received and still holds. -/
inductive Sent (session : PeerSession) (sent : Bytes) : Prop
  | running (finalized : session.finalized = false) (whole : (splitLines newline sent).2 = [])
      (partial_ : newline ∉ session.carry) (received : sent ++ session.carry = session.received)
  | finished (finalized : session.finalized = true) (wait : session.wait = .nothing)
      (received : sent = endLine session.received)

/-- Whole lines in front of a partial line are split off. -/
theorem splitLines_whole_append {whole part : Bytes} (closed : (splitLines newline whole).2 = [])
    (absent : newline ∉ part) :
    splitLines newline (whole ++ part) = ((splitLines newline whole).1, part) := by
  rw [splitLines_append, closed, List.nil_append, splitLines_of_not_mem newline absent,
    List.append_nil]

/-- A session has sent what is due. -/
theorem Sent.eq_due {session : PeerSession} {sent : Bytes} (agrees : session.Sent sent) :
    sent = session.due := by
  -- A running session has sent whole lines, a finished one all that was due.
  cases agrees with
  | running finalized whole partial_ received =>
    have pieces := joinLines_splitLines newline sent
    rw [whole, List.append_nil] at pieces
    have split := splitLines_whole_append whole partial_
    rw [due, if_neg (by simp [finalized]), ← received, split, pieces]
  | finished finalized wait received => rw [due, if_pos finalized, received]

/-- A new session has sent nothing. -/
theorem sent_start (tls : Bool) : (start tls).Sent [] := by
  cases tls
  · exact .running rfl rfl (by simp [start, doRead]) rfl
  · exact .running rfl rfl (by simp [start]) rfl

/-- A session that reads on has sent what it had sent. -/
theorem Sent.doRead {session : PeerSession} {sent : Bytes} (agrees : session.Sent sent)
    (finalized : session.finalized = false) : session.doRead.Sent sent := by
  cases agrees with
  | running _ whole partial_ received => exact .running finalized whole partial_ received
  | finished isOver => simp [finalized] at isOver

/-- Closing the socket changes nothing of what was sent. -/
theorem Sent.closed {session : PeerSession} {sent : Bytes} (agrees : session.Sent sent) :
    PeerSession.Sent { session with socketOpen := false } sent := by
  cases agrees with
  | running finalized whole partial_ received => exact .running finalized whole partial_ received
  | finished finalized wait received => exact .finished finalized wait received

/-- A chunk: the complete lines are sent, and the partial line stays. -/
theorem Sent.onRead {session : PeerSession} {sent : Bytes} (agrees : session.Sent sent)
    (finalized : session.finalized = false) (bytes_ : Bytes) :
    let grown := { session with
      carry := session.carry ++ bytes_
      received := session.received ++ bytes_ }
    grown.keepPartial.doRead.Sent (sent ++ grown.completeLines) := by
  intro grown
  cases agrees with
  | finished isOver => simp [finalized] at isOver
  -- The carry has no newline, so the lines of carry and bytes start with its text.
  | running _ whole partial_ received =>
    have pieces := joinLines_splitLines newline (session.carry ++ bytes_)
    have absent := not_mem_splitLines newline (session.carry ++ bytes_)
    refine .running finalized ?_ absent.2 ?_
    · have split := splitLines_joinLines newline absent.1
      simp only [grown, completeLines]
      rw [splitLines_append, whole, List.nil_append, split]
    · simp only [grown, completeLines, keepPartial, PeerSession.doRead, List.append_assoc]
      rw [pieces, ← List.append_assoc, received]

/-- The end of a session: its partial line is sent with a newline. -/
theorem Sent.ended {session : PeerSession} {sent : Bytes} (agrees : session.Sent sent)
    (finalized : session.finalized = false) : session.ended.Sent (sent ++ session.lastLine) := by
  cases agrees with
  | finished isOver => simp [finalized] at isOver
  | running _ whole partial_ received =>
    refine .finished rfl rfl ?_
    have rest : (splitLines newline session.received).2 = session.carry := by
      rw [← received, splitLines_whole_append whole partial_]
    -- A carry without a newline does not end with one.
    have open_ : session.carry.getLast? ≠ some newline := fun last =>
      partial_ (List.mem_of_getLast? last)
    simp only [PeerSession.ended, endLine, rest, lastLine]
    by_cases empty : session.carry = []
    · simp [empty, ← received]
    · rw [if_neg empty, if_neg open_, if_neg empty, ← List.append_assoc, received]

/-- What a session sends ends at a line end. -/
theorem splitLines_lastLine {session : PeerSession} {sent : Bytes} (agrees : session.Sent sent)
    (finalized : session.finalized = false) : (splitLines newline session.lastLine).2 = [] := by
  cases agrees with
  -- Only a running session has a carry, and it does not end with a newline.
  | finished isOver => simp [finalized] at isOver
  | running _ whole partial_ received =>
    have open_ : session.carry.getLast? ≠ some newline := fun last =>
      partial_ (List.mem_of_getLast? last)
    unfold lastLine
    by_cases empty : session.carry = []
    · rw [if_pos empty]
      rfl
    · rw [if_neg empty, if_neg open_, splitLines_concat]

end PeerSession

namespace TcpServer

/-- What holds after every move: the queue has what was appended, in whole lines, and each session
has sent what it should. -/
structure Sound (server : TcpServer) : Prop where
  content : server.dropped = 0 →
    server.appends.flatMap (·.2) = server.delivered ++ server.queue.bytes
  whole : ∀ append ∈ server.appends, (splitLines newline append.2).2 = []
  known : ∀ append ∈ server.appends, append.1 < server.sessions.length
  sent : ∀ id (session : PeerSession), server.sessions[id]? = some session →
    session.Sent (server.sentFor id)

/-- An append for a session adds to what was sent for it, and for no other. -/
theorem sentFor_onSessionLines (server : TcpServer) (id other : Nat) (lines : Bytes) :
    (server.onSessionLines id lines).sentFor other =
      server.sentFor other ++ if id = other then lines else [] := by
  unfold onSessionLines sentFor
  -- Lines are noted under the session that sent them.
  by_cases empty : lines = []
  · simp [empty]
  · rw [if_neg empty, List.filter_append, List.flatMap_append]
    by_cases same : id = other
    · simp [same]
    · simp [same]

/-- An append adds to the queue unless something is dropped. -/
theorem content_onSessionLines {server : TcpServer} (sound : server.Sound) (id : Nat)
    (lines : Bytes)
    (kept : (server.onSessionLines id lines).dropped = 0) :
    (server.onSessionLines id lines).appends.flatMap (·.2) =
      (server.onSessionLines id lines).delivered ++
        (server.onSessionLines id lines).queue.bytes := by
  unfold onSessionLines at kept ⊢
  by_cases empty : lines = []
  · rw [if_pos empty] at kept ⊢
    exact sound.content kept
  · rw [if_neg empty] at kept ⊢
    -- The counter is still zero, so this append has dropped nothing either.
    simp only [LineBytesQueue.append, Nat.add_eq_zero_iff] at kept ⊢
    rw [kept.2, List.flatMap_append, sound.content kept.1]
    simp

/-- Sending whole lines for a session that agrees with them afterwards. -/
theorem Sound.send {server : TcpServer} (sound : server.Sound) {id : Nat}
    {session after : PeerSession}
    (found : server.sessions[id]? = some session) (lines : Bytes)
    (closed : (splitLines newline lines).2 = [])
    (agrees : after.Sent (server.sentFor id ++ lines)) :
    ((server.onSessionLines id lines).setSession id after).Sound := by
  have bound : id < server.sessions.length := (List.getElem?_eq_some_iff.mp found).1
  have sessions : (server.onSessionLines id lines).sessions = server.sessions := by
    unfold onSessionLines
    split <;> rfl
  have appends : ∀ append ∈ (server.onSessionLines id lines).appends,
      append ∈ server.appends ∨ append = (id, lines) := by
    intro append member
    unfold onSessionLines at member
    split at member
    · exact .inl member
    · simpa using member
  refine ⟨content_onSessionLines sound id lines, ?_, ?_, ?_⟩
  · intro append member
    obtain old | rfl := appends append member
    · exact sound.whole append old
    · exact closed
  · intro append member
    simp only [setSession, List.length_set, sessions]
    obtain old | rfl := appends append member
    · exact sound.known append old
    · exact bound
  · intro other held found'
    have sentOther := sentFor_onSessionLines server id other lines
    simp only [setSession, sessions] at found'
    by_cases same : id = other
    · -- The session itself.
      subst same
      rw [List.getElem?_set_self bound] at found'
      obtain rfl := Option.some.inj found'
      rw [if_pos rfl] at sentOther
      exact sentOther ▸ agrees
    · rw [List.getElem?_set_ne same] at found'
      rw [if_neg same, List.append_nil] at sentOther
      exact sentOther ▸ sound.sent other held found'

/-- A change of a session that sends nothing. -/
theorem Sound.setSession {server : TcpServer} (sound : server.Sound) {id : Nat}
    {session after : PeerSession}
    (found : server.sessions[id]? = some session) (agrees : after.Sent (server.sentFor id)) :
    (server.setSession id after).Sound := by
  have sends := sound.send found [] rfl (by simpa using agrees)
  simpa [onSessionLines] using sends

/-- A session that waits for something is not finalized. -/
theorem Sound.running {server : TcpServer} (sound : server.Sound) {id : Nat} {session : PeerSession}
    (found : server.sessions[id]? = some session) (waits : session.wait ≠ .nothing) :
    session.finalized = false := by
  cases sound.sent id session found with
  | running finalized whole partial_ received => exact finalized
  | finished finalized wait received => exact absurd wait waits

/-- `Finalize` sends the last line. -/
theorem Sound.finalize {server : TcpServer} (sound : server.Sound) {id : Nat}
    {session : PeerSession}
    (found : server.sessions[id]? = some session) : (server.finalize id session).Sound := by
  unfold TcpServer.finalize
  -- A session that is over already ends only once.
  split
  · exact sound
  · rename_i running
    have finalized : session.finalized = false := by simpa using running
    have agrees := sound.sent id session found
    have sends := sound.send found _ (PeerSession.splitLines_lastLine agrees finalized)
      (agrees.ended finalized)
    exact ⟨sends.content, sends.whole, sends.known, sends.sent⟩

/-- `OnRead` sends the complete lines. -/
theorem Sound.onRead {server : TcpServer} (sound : server.Sound) {id : Nat} {session : PeerSession}
    (found : server.sessions[id]? = some session) (finalized : session.finalized = false)
    (bytes_ : Bytes) :
    (server.onRead id session bytes_).Sound := by
  have agrees := sound.sent id session found
  unfold TcpServer.onRead
  -- Without a complete line only the carry grows.
  split
  · exact sound.setSession found (agrees.doRead finalized)
  · have lines := not_mem_splitLines newline (session.carry ++ bytes_)
    refine sound.send found _ ?_ (agrees.onRead finalized bytes_)
    rw [PeerSession.completeLines, splitLines_joinLines newline lines.1]

/-- A new session has sent nothing, and nothing is said of it. -/
theorem Sound.admitSession {server : TcpServer} (sound : server.Sound) :
    server.admitSession.Sound := by
  unfold TcpServer.admitSession
  split
  · -- At the limit the peer is turned away.
    exact sound
  · refine ⟨sound.content, sound.whole, ?_, ?_⟩
    · -- What has been appended belongs to the sessions that were there.
      intro append member
      have old := sound.known append member
      simp only [List.length_append]
      omega
    · intro id session found
      simp only [List.getElem?_append, List.getElem?_singleton] at found
      split at found
      · exact sound.sent id session found
      · -- The new session has the next id, and under that one nothing has been appended.
        rename_i fresh
        have nothing : server.sentFor id = [] := by
          have none_ : server.appends.filter (fun append => decide (append.1 = id)) = [] := by
            rw [List.filter_eq_nil_iff]
            intro append member same
            have old := sound.known append member
            simp only [decide_eq_true_eq] at same
            omega
          rw [sentFor, none_, List.flatMap_nil]
        split at found
        · obtain rfl := Option.some.inj found
          have first := PeerSession.sent_start server.tls
          rw [← nothing] at first
          exact first
        · cases found

/-- `StartAccept` has no bytes. -/
theorem Sound.startAccept {server : TcpServer} (sound : server.Sound) :
    server.startAccept.Sound := by
  unfold TcpServer.startAccept
  split
  · exact sound
  · exact ⟨sound.content, sound.whole, sound.known, sound.sent⟩

/-- An accept has no bytes, whatever its result is. -/
theorem Sound.onAccept {server : TcpServer} (sound : server.Sound) (result : AcceptResult) :
    (server.onAccept result).Sound := by
  have idle : ({ server with accepting := false } : TcpServer).Sound :=
    ⟨sound.content, sound.whole, sound.known, sound.sent⟩
  unfold TcpServer.onAccept
  simp only
  -- A server that is stopping, or has no room, accepts without a session.
  split
  · exact idle
  · cases result with
    | socket => exact idle.admitSession.startAccept
    | failed => exact idle.startAccept
    | aborted => exact idle

/-- Every move keeps the queue in whole lines of the sessions. -/
theorem step_sound {server next : TcpServer} {item : TcpMove} (sound : server.Sound)
    (done : server.step item = some next) : next.Sound := by
  cases item with
  -- A peer is accepted only while the acceptor waits for one.
  | accepted result =>
    simp only [step] at done
    split at done
    · obtain rfl := Option.some.inj done
      exact sound.onAccept result
    · cases done
  -- The handshake ends in the first read, or in the end of the session.
  | handshaken id ok =>
    obtain ⟨session, found, done⟩ := Option.bind_eq_some_iff.mp done
    split at done
    · rename_i waits
      have finalized := sound.running found (by simp [waits])
      -- A failed handshake finalizes the session, which has sent nothing.
      split at done
      · obtain rfl := Option.some.inj done
        exact sound.setSession found ((sound.sent id session found).doRead finalized)
      · obtain rfl := Option.some.inj done
        exact sound.finalize found
    · cases done
  | readDone id result =>
    obtain ⟨session, found, done⟩ := Option.bind_eq_some_iff.mp done
    -- Bytes are split into lines and appended; without bytes the session is finalized.
    cases result with
    | some bytes_ =>
      simp only at done
      split at done
      · rename_i waits
        obtain rfl := Option.some.inj done
        exact sound.onRead found (sound.running found (by simp [waits])) bytes_
      · cases done
    | none =>
      simp only at done
      split at done
      · obtain rfl := Option.some.inj done
        exact sound.finalize found
      · cases done
  -- A stop sets its flag and touches no session.
  | stop =>
    simp only [step] at done
    split at done
    · obtain rfl := Option.some.inj done
      exact sound
    · obtain rfl := Option.some.inj done
      exact ⟨sound.content, sound.whole, sound.known, sound.sent⟩
  -- Sockets close, but what their sessions have sent stays what it was.
  | closeSockets =>
    simp only [step] at done
    split at done
    · obtain rfl := Option.some.inj done
      refine ⟨sound.content, sound.whole, ?_, ?_⟩
      · simpa [TcpServer.closeSockets] using sound.known
      · intro id session found
        simp only [TcpServer.closeSockets, List.getElem?_mapIdx, Option.map_eq_some_iff] at found
        obtain ⟨held, was, rfl⟩ := found
        have agrees := sound.sent id held was
        split
        · exact agrees.closed
        · exact agrees
    · cases done
  -- Reading moves bytes from the queue to the reader, and their order stays.
  | read bufferSize =>
    obtain rfl := Option.some.inj done
    refine ⟨fun kept => ?_, sound.whole, sound.known, sound.sent⟩
    have content := sound.content kept
    simpa [LineBytesQueue.read, List.append_assoc] using content

/-- Every run keeps the queue in whole lines of the sessions. -/
theorem run_sound {server final : TcpServer} {moves : List TcpMove} (sound : server.Sound)
    (done : moves.foldlM step server = some final) : final.Sound :=
  foldlM_invariant (fun _ _ _ sound => step_sound sound) sound done

/-- Before the first move there is nothing. -/
theorem start_sound (cap maxClients : Nat) (tls : Bool) : (start cap maxClients tls).Sound :=
  ⟨fun _ => rfl, by simp [start], by simp [start], by simp [start]⟩

/-- A session is over: it has been finalized, and what was sent for it stays as it is. -/
def OverWith (id : Nat) (sent : Bytes) (server : TcpServer) : Prop :=
  (∃ session, server.sessions[id]? = some session ∧ session.finalized = true) ∧
    server.sentFor id = sent

/-- A change of another session leaves a finalized one alone. -/
theorem OverWith.send {id other : Nat} {sent : Bytes} {server : TcpServer}
    (finished : server.OverWith id sent)
    (differs : other ≠ id) (lines : Bytes) (after : PeerSession) :
    ((server.onSessionLines other lines).setSession other after).OverWith id sent := by
  obtain ⟨⟨session, found, finalized⟩, same⟩ := finished
  have sessions : (server.onSessionLines other lines).sessions = server.sessions := by
    unfold onSessionLines
    split <;> rfl
  -- The lines and the state of another session are not its own.
  refine ⟨⟨session, ?_, finalized⟩, ?_⟩
  · rw [TcpServer.setSession, sessions, List.getElem?_set_ne differs]
    exact found
  · have sentOther := sentFor_onSessionLines server other id lines
    rw [if_neg differs, List.append_nil, same] at sentOther
    exact sentOther

/-- The end of another session leaves a finalized one alone. -/
theorem OverWith.finalize {id other : Nat} {sent : Bytes} {server : TcpServer}
    (finished : server.OverWith id sent) (differs : other ≠ id) (session : PeerSession) :
    (server.finalize other session).OverWith id sent := by
  unfold TcpServer.finalize
  split
  · exact finished
  · exact finished.send differs session.lastLine session.ended

/-- A chunk of another session leaves a finalized one alone. -/
theorem OverWith.onRead {id other : Nat} {sent : Bytes} {server : TcpServer}
    (finished : server.OverWith id sent) (differs : other ≠ id) (session : PeerSession)
    (bytes_ : Bytes) :
    (server.onRead other session bytes_).OverWith id sent := by
  unfold TcpServer.onRead
  split
  · simpa [onSessionLines] using finished.send differs [] session.doRead
  · exact finished.send differs _ _

/-- An accept leaves a finalized session alone. -/
theorem OverWith.onAccept {id : Nat} {sent : Bytes} {server : TcpServer}
    (finished : server.OverWith id sent)
    (result : AcceptResult) : (server.onAccept result).OverWith id sent := by
  have rearmed {server : TcpServer} (finished : server.OverWith id sent) :
      server.startAccept.OverWith id sent := by
    unfold TcpServer.startAccept
    split <;> exact finished
  have idle : ({ server with accepting := false } : TcpServer).OverWith id sent := finished
  unfold TcpServer.onAccept
  simp only
  split
  · exact idle
  · cases result with
    | failed => exact rearmed idle
    | aborted => exact idle
    | socket =>
      apply rearmed
      unfold TcpServer.admitSession
      split
      · exact idle
      · -- The new session comes behind the others.
        obtain ⟨⟨session, found, finalized⟩, same⟩ := finished
        have bound : id < server.sessions.length := (List.getElem?_eq_some_iff.mp found).1
        exact ⟨⟨session, by rw [List.getElem?_append_left bound]; exact found, finalized⟩, same⟩

/-- Every move leaves a finalized session alone: it waits for nothing, so no handler of it runs. -/
theorem step_overWith {id : Nat} {sent : Bytes} {server next : TcpServer} {item : TcpMove}
    (sound : server.Sound) (finished : server.OverWith id sent)
    (done : server.step item = some next) :
    next.OverWith id sent := by
  -- A session that is over waits for nothing, so the one that moves is another.
  have differs {other : Nat} {session : PeerSession}
    (found : server.sessions[other]? = some session)
      (waits : session.wait ≠ .nothing) : other ≠ id := by
    rintro rfl
    obtain ⟨⟨held, heldFound, finalized⟩, -⟩ := finished
    obtain rfl : session = held := Option.some.inj (found.symm.trans heldFound)
    have running := sound.running found waits
    simp [finalized] at running
  cases item with
  | accepted result =>
    simp only [step] at done
    split at done
    · obtain rfl := Option.some.inj done
      exact finished.onAccept result
    · cases done
  -- Another session reads on, or ends with a line of its own.
  | handshaken other ok =>
    obtain ⟨session, found, done⟩ := Option.bind_eq_some_iff.mp done
    split at done
    · rename_i waits
      have another := differs found (by simp [waits])
      split at done
      · obtain rfl := Option.some.inj done
        simpa [onSessionLines] using finished.send another [] session.doRead
      · obtain rfl := Option.some.inj done
        exact finished.finalize another session
    · cases done
  -- What another session appends carries its own id.
  | readDone other result =>
    obtain ⟨session, found, done⟩ := Option.bind_eq_some_iff.mp done
    cases result with
    | some bytes_ =>
      simp only at done
      split at done
      · rename_i waits
        obtain rfl := Option.some.inj done
        exact finished.onRead (differs found (by simp [waits])) session bytes_
      · cases done
    | none =>
      simp only at done
      split at done
      · rename_i waits
        obtain rfl := Option.some.inj done
        have some_ : session.wait ≠ .nothing := by
          obtain waits | waits := waits <;> simp [waits]
        exact finished.finalize (differs found some_) session
      · cases done
  | stop =>
    simp only [step] at done
    split at done <;> (obtain rfl := Option.some.inj done; exact finished)
  -- Closing a socket again finalizes nothing.
  | closeSockets =>
    simp only [step] at done
    split at done
    · obtain rfl := Option.some.inj done
      obtain ⟨⟨session, found, finalized⟩, same⟩ := finished
      refine ⟨⟨if id ∈ server.active then { session with socketOpen := false }
        else session, ?_, ?_⟩, same⟩
      · simp [TcpServer.closeSockets, List.getElem?_mapIdx, found]
      · split <;> exact finalized
    · cases done
  | read bufferSize =>
    obtain rfl := Option.some.inj done
    exact finished

/-- The queue's content, read or not, is whole lines, each of one session, and the lines of each
session are what is due for it. -/
def Interleaved (server : TcpServer) : Prop :=
  ∃ lines : List (Nat × Bytes),
    (∀ line ∈ lines, newline ∉ line.2 ∧ line.1 < server.sessions.length) ∧
      server.delivered ++ server.queue.bytes = joinLines newline (lines.map (·.2)) ∧
      ∀ id (session : PeerSession), server.sessions[id]? = some session →
        joinLines newline ((lines.filter (·.1 = id)).map (·.2)) = session.due

/-- What was appended, line by line. -/
theorem Sound.interleaved {server : TcpServer} (sound : server.Sound) (kept : server.dropped = 0) :
    server.Interleaved := by
  -- Each append is cut into its lines, which all have its session's number.
  let cut := fun append : Nat × Bytes => (splitLines newline append.2).1.map fun line =>
    (append.1, line)
  have joined (appends : List (Nat × Bytes)) (whole : ∀ append ∈ appends,
    (splitLines newline append.2).2 = []) :
      joinLines newline ((appends.flatMap cut).map (·.2)) = appends.flatMap (·.2) := by
    induction appends with
    | nil => rfl
    | cons append rest ih =>
      have pieces := joinLines_splitLines newline append.2
      rw [whole append List.mem_cons_self, List.append_nil] at pieces
      have later := ih fun other member => whole other (List.mem_cons_of_mem append member)
      rw [List.flatMap_cons, List.map_append, joinLines_append, later, List.flatMap_cons]
      simp [cut, Function.comp_def, pieces]
  have filtered (appends : List (Nat × Bytes)) (id : Nat) :
      (appends.flatMap cut).filter (·.1 = id) = (appends.filter (·.1 = id)).flatMap cut := by
    induction appends with
    | nil => rfl
    | cons append rest ih =>
      rw [List.flatMap_cons, List.filter_append, ih, List.filter_cons]
      by_cases same : append.1 = id
      · simp [cut, same, List.filter_map, Function.comp_def]
      · simp [cut, same, List.filter_map, Function.comp_def]
  refine ⟨server.appends.flatMap cut, ?_, ?_, ?_⟩
  · intro line member
    obtain ⟨append, listed, inside⟩ := List.mem_flatMap.mp member
    obtain ⟨text, isLine, rfl⟩ := List.mem_map.mp inside
    exact ⟨(not_mem_splitLines newline append.2).1 text isLine, sound.known append listed⟩
  · rw [joined server.appends sound.whole, sound.content kept]
  · intro id session found
    rw [filtered, joined]
    · exact (sound.sent id session found).eq_due
    · intro append member
      exact sound.whole append (List.mem_of_mem_filter member)

/-- In every run in which the queue has dropped nothing, its content is an interleaving of the
sessions' lines; and nothing is appended for a session after it was finalized. -/
theorem run_interleaved {cap maxClients : Nat} {tls : Bool} {moves more : List TcpMove}
    {middle final : TcpServer} (begun : moves.foldlM step (start cap maxClients tls) = some middle)
    (done : more.foldlM step middle = some final) (kept : final.dropped = 0) :
    final.Interleaved ∧
      ∀ id (session : PeerSession), middle.sessions[id]? = some session → session.finalized = true →
        final.sentFor id = middle.sentFor id := by
  have middleSound := run_sound (start_sound cap maxClients tls) begun
  refine ⟨(run_sound middleSound done).interleaved kept, fun id session found finalized => ?_⟩
  have finished : middle.Sound ∧ middle.OverWith id (middle.sentFor id) :=
    ⟨middleSound, ⟨session, found, finalized⟩, rfl⟩
  -- A session that is over stays over, and sends nothing more.
  have preserves : ∀ (server : TcpServer) (item : TcpMove) (next : TcpServer),
      server.Sound ∧ server.OverWith id (middle.sentFor id) → server.step item = some next →
        next.Sound ∧ next.OverWith id (middle.sentFor id) := fun server item next both moved =>
    ⟨step_sound both.1 moved, step_overWith both.1 both.2 moved⟩
  exact (foldlM_invariant preserves finished done).2.2

/-- Two sessions with a partial line each; the first one's peer goes, then the producer is
stopped. -/
def twoPeers : List TcpMove :=
  [.accepted .socket, .accepted .socket, .readDone 0 (some (bytes "a")),
    .readDone 1 (some (bytes "x\ny")),
    .readDone 0 (some (bytes "b\nc")), .readDone 0 none]

/-- The stop, which ends the second session. -/
def thenStopped : List TcpMove :=
  [.stop, .closeSockets, .accepted .aborted, .readDone 1 none, .read 64]

/-- Two peers whose lines interleave, and a stop that delivers nothing more. -/
theorem twoPeers_interleaved : ∃ middle final,
    twoPeers.foldlM step (start 64 4 false) = some middle ∧
      thenStopped.foldlM step middle = some final ∧
      final.delivered = bytes "x\nab\nc\ny\n" ∧ final.Interleaved ∧
      final.sentFor 0 = middle.sentFor 0 := by
  obtain ⟨interleaved, same⟩ :=
    @run_interleaved 64 4 false twoPeers thenStopped _ _ rfl rfl (by decide)
  exact ⟨_, _, rfl, rfl, by decide, interleaved, same 0 _ rfl rfl⟩

end TcpServer

end Loglib
