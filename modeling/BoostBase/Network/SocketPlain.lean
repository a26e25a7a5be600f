import BoostBase.Network.Socket

namespace BoostBase

open Asio Transition

def refuses (world : StreamWorld) (history : List StreamEvent) : List SocketOption → Bool
  | [] => false
  | option :: options =>
    let ec := world history (.setOption option)
    if ec = .success then refuses world (history ++ [⟨.setOption option, ec⟩]) options else true

namespace TCPSocket

/-- What `setNagle(false)` and `setKeepAlive(true)` set. -/
def fastOptions : List SocketOption :=
  [.noDelay true, .keepAlive true, .keepIdle 20, .keepIntvl 10, .keepCnt 4]

def setOptions : List SocketOption → Await Unit
  | [] => .ret ()
  | option :: options => do
    setOption option
    setOptions options

variable {world : StreamWorld} {history : List StreamEvent}

theorem start_options (s : TCPSocket) :
    s.start = if s.fastPreset then setOptions fastOptions else .ret () := by
  have ends (x : Await Unit) : (x >>= fun _ => .ret ()) = x := bind_pure x
  unfold start
  cases s.fastPreset with
  | false => rfl
  | true =>
    simp only [if_true, setNagle, setKeepAlive, fastOptions, setOptions, ends]
    rfl

theorem setOption_run (option : SocketOption) :
    (setOption option).run world history =
      ([⟨.setOption option, world history (.setOption option)⟩],
        if world history (.setOption option) = .success then .ok ()
        else .error (.systemError (world history (.setOption option)))) := by
  change (Script.perform (StreamOp.setOption option) fun ec => finish ec ()).run world history = _
  rw [Script.run_perform]
  unfold finish
  dsimp only
  split <;> rfl

theorem setOptions_run (options : List SocketOption) :
    (refuses world history options = true ∧
      ∃ events e, (setOptions options).run world history = (events, .error e)) ∨
    (refuses world history options = false ∧
      ∃ events, (setOptions options).run world history = (events, .ok ())) := by
  induction options generalizing history with
  | nil => exact .inr ⟨rfl, [], rfl⟩
  | cons option options ih =>
    have first := @setOption_run world history option
    unfold refuses
    dsimp only
    by_cases accepted : world history (.setOption option) = .success
    · rw [if_pos accepted] at first ⊢
      have both := Script.run_bind_ok (f := fun _ => setOptions options) first
      rcases @ih (history ++ [⟨.setOption option, world history (.setOption option)⟩]) with
        ⟨refused, events, e, failed⟩ | ⟨taken, events, ended⟩
      · rw [failed] at both
        exact .inl ⟨refused, _, e, both⟩
      · rw [ended] at both
        exact .inr ⟨taken, _, both⟩
    · rw [if_neg accepted] at first ⊢
      exact .inl ⟨rfl, _, _, Script.run_bind_error (f := fun _ => setOptions options) first⟩

theorem start_run (s : TCPSocket) :
    ((s.fastPreset && refuses world history fastOptions) = true ∧
      ∃ events e, s.start.run world history = (events, .error e)) ∨
    ((s.fastPreset && refuses world history fastOptions) = false ∧
      ∃ events, s.start.run world history = (events, .ok ())) := by
  rw [start_options]
  cases s.fastPreset with
  | false => exact .inr ⟨rfl, [], rfl⟩
  | true => exact setOptions_run fastOptions

end TCPSocket

namespace Socket

open Script

variable {world : StreamWorld} {history : List StreamEvent} {c : SocketCall}

def isHandshake : StreamOp → Bool
  | .handshake _ => true
  | _ => false

def sslOff (s : SSLSocket) (state : SocketState) : Socket := ⟨state, .ssl (s.setSSL false)⟩

def plain (s : SSLSocket) (state : SocketState) : Socket := ⟨state, .tcp s.toTCPSocket⟩

theorem call_alike (s : SSLSocket) {state : SocketState} (unentered : state ≠ .initial ∨ c ≠ .start) :
    ∃ after x, (sslOff s state).call c = (sslOff s after, x) ∧
      (plain s state).call c = (plain s after, x) ∧ (state ≠ .initial → after ≠ .initial) ∧
      (c ≠ .start → state = .initial → after = .initial) := by
  cases c with
  | start =>
    cases state with
    | initial => exact absurd rfl (unentered.resolve_left fun past => past rfl)
    | started | closed => exact ⟨_, .ret .done, rfl, rfl, id, fun other => absurd rfl other⟩
  | close =>
    cases state with
    | initial | closed => exact ⟨_, .ret .done, rfl, rfl, id, fun _ same => same⟩
    | started => exact ⟨.closed, _, rfl, rfl, fun _ => by decide, fun _ same => by cases same⟩
  | readSome size | readAll size | writeAll data => exact ⟨state, _, rfl, rfl, id, fun _ => id⟩

theorem runCalls_alike (s : SSLSocket) {state : SocketState} (past : state ≠ .initial)
    (calls : List SocketCall) :
    (sslOff s state).runCalls world history calls = (plain s state).runCalls world history calls := by
  induction calls generalizing state history with
  | nil => rfl
  | cons c cs ih =>
    obtain ⟨after, x, off, tcp, later, _⟩ := call_alike s (c := c) (.inl past)
    simp only [runCalls, off, tcp]
    rw [ih (later past)]

theorem plain_call (s : SSLSocket) (state : SocketState) (c : SocketCall) :
    ((plain s state).call c).2.Only (fun op => isHandshake op = false) := by
  have nothing : (Script.ret () : Await Unit).Only (fun op => isHandshake op = false) := trivial
  cases c with
  | start =>
    refine .bind ?_ fun _ => trivial
    cases state with
    | initial => exact s.toTCPSocket.start_only fun _ => rfl
    | started | closed => exact nothing
  | close =>
    refine .bind ?_ fun _ => trivial
    cases state with
    | initial | closed => exact nothing
    | started => exact .bind (.ask rfl) fun _ => .bind (.ask rfl) fun _ => trivial
  | readSome size | readAll size | writeAll data =>
    refine (call_transfer (plain s state) (by simp) (by simp)).2.mono fun op transfer => ?_
    cases op <;> first | rfl | cases transfer

theorem plain_runCalls (s : SSLSocket) {state : SocketState} (calls : List SocketCall) :
    ∀ event ∈ ((plain s state).runCalls world history calls).1, isHandshake event.op = false := by
  induction calls generalizing state history with
  | nil =>
    intro event performed
    cases performed
  | cons c cs ih =>
    intro event performed
    have here (t : SocketState) : ∃ u, ((plain s t).call c).1 = plain s u := by
      cases c with
      | start | close => cases t <;> exact ⟨_, rfl⟩
      | readSome size | readAll size | writeAll data => exact ⟨t, rfl⟩
    obtain ⟨after, same⟩ := here state
    simp only [runCalls, same] at performed
    rcases List.mem_append.mp performed with now | later
    · exact (plain_call s state c).run event now
    · exact ih event later

/-- The options of the fast preset are not all set at the first `co_start`. -/
def startRefused (s : SSLSocket) (world : StreamWorld) (history : List StreamEvent)
    (calls : List SocketCall) : Bool :=
  let before := calls.takeWhile (· ≠ .start)
  let events := ((plain s .initial).runCalls world history before).1
  s.fastPreset && refuses world (history ++ events) TCPSocket.fastOptions

theorem sslStart_run (s : SSLSocket) {events : List StreamEvent}
    (ended : s.toTCPSocket.start.run world history = (events, .ok ())) :
    ∃ event ∈ (s.start.run world history).1, isHandshake event.op = true := by
  let type := if s.client then HandshakeType.client else .server
  refine ⟨⟨.handshake type, world (history ++ events) (.handshake type)⟩, ?_, rfl⟩
  have whole : (s.start.run world history).1 =
      events ++ (((StreamOp.handshake type).perform >>= fun ec => finish ec ()).run world
        (history ++ events)).1 := congrArg Prod.fst (run_bind_ok ended)
  rw [whole]
  exact List.mem_append_right _ List.mem_cons_self

/-- An SSL socket with SSL switched off performs and returns what a TCP socket would, if and
    only if it is never started or its start fails before the handshake. -/
theorem ssl_off_iff (s : SSLSocket) (world : StreamWorld) (history : List StreamEvent)
    (calls : List SocketCall) :
    (Socket.new (.ssl (s.setSSL false))).runCalls world history calls =
        (Socket.new (.tcp s.toTCPSocket)).runCalls world history calls ↔
      .start ∉ calls ∨ startRefused s world history calls = true := by
  change (sslOff s .initial).runCalls world history calls =
    (plain s .initial).runCalls world history calls ↔ _
  induction calls generalizing history with
  | nil => simp [runCalls]
  | cons c cs ih =>
    by_cases starts : c = .start
    · subst starts
      have here : startRefused s world history (.start :: cs) =
          (s.fastPreset && refuses world history TCPSocket.fastOptions) := by
        simp [startRefused, runCalls]
      rw [here]
      rcases @TCPSocket.start_run world history s.toTCPSocket with
        ⟨refused, events, e, failed⟩ | ⟨taken, events, ended⟩
      · have off : ((sslOff s .initial).call .start).2.run world history = (events, .error e) :=
          run_bind_error (run_bind_error failed)
        have tcp : ((plain s .initial).call .start).2.run world history = (events, .error e) :=
          run_bind_error failed
        refine iff_of_true ?_ (.inr refused)
        simp only [runCalls, off, tcp]
        have same : (sslOff s .started).runCalls world (history ++ events) cs =
          (plain s .started).runCalls world (history ++ events) cs := runCalls_alike s (by decide) cs
        exact congrArg (fun later => (events ++ later.1, .error e :: later.2)) same
      · refine iff_of_false (fun same => ?_) (by simp [taken])
        obtain ⟨event, performed, handshake⟩ := sslStart_run (s.setSSL false) ended
        have off : event ∈ ((sslOff s .initial).runCalls world history (.start :: cs)).1 :=
          List.mem_append_left _ (mem_run_bind performed)
        rw [same] at off
        have unseen := plain_runCalls s (.start :: cs) event off
        rw [handshake] at unseen
        cases unseen
    · obtain ⟨after, x, off, tcp, _, still⟩ := call_alike s (c := c) (.inr starts)
      obtain rfl := still starts rfl
      have later := @ih (history ++ (x.run world history).1)
      have first : startRefused s world history (c :: cs) =
          startRefused s world (history ++ (x.run world history).1) cs := by
        simp [startRefused, starts, runCalls, tcp]
      simp only [List.mem_cons, Ne.symm starts, false_or, first]
      rw [← later]
      simp only [runCalls, off, tcp]
      simp [Prod.ext_iff]

/-- `co_start` of an SSL socket with SSL switched off makes a handshake. -/
theorem handshake_when_off :
    ((Socket.new (.ssl (SSLSocket.new.setSSL false))).runCalls accepting [] [.start]).1.map Event.op =
        TCPSocket.fastOptions.map .setOption ++ [.handshake .client] ∧
      ((Socket.new (.tcp .new)).runCalls accepting [] [.start]).1.map Event.op =
        TCPSocket.fastOptions.map .setOption ∧
      (Socket.new (.ssl (SSLSocket.new.setSSL false))).runCalls accepting [] [.start] ≠
        (Socket.new (.tcp .new)).runCalls accepting [] [.start] := by
  refine ⟨rfl, rfl, fun same => ?_⟩
  have lengths := congrArg (fun run => run.1.length) same
  exact absurd lengths (by decide)

end Socket

end BoostBase
