import BoostBase.Network.Socket

namespace BoostBase

open Asio Transition

namespace Socket

open Script

variable {world : StreamWorld} {history : List StreamEvent} {c : SocketCall} {s : Socket}

def ClosesTcp (events : List StreamEvent) : Prop :=
  [StreamOp.shutdown, StreamOp.close].Sublist (events.map Event.op)

instance (events : List StreamEvent) : Decidable (ClosesTcp events) :=
  inferInstanceAs (Decidable ([StreamOp.shutdown, StreamOp.close].Sublist _))

theorem not_closesTcp {events : List StreamEvent} (open_ : ∀ event ∈ events, event.op ≠ .close) :
    ¬ ClosesTcp events := by
  intro closes
  have member : StreamOp.close ∈ events.map Event.op := closes.subset (by simp)
  obtain ⟨event, performed, same⟩ := List.mem_map.mp member
  exact open_ event performed same

theorem tcpClose_run : TCPSocket.close.run world history =
    ([⟨.shutdown, world history .shutdown⟩,
      ⟨.close, world (history ++ [⟨.shutdown, world history .shutdown⟩]) .close⟩], .ok ()) := rfl

theorem closed_call (closed : s.state = .closed) (c : SocketCall) :
    (s.call c).1.state = .closed ∧ (s.call c).2.Only (fun op => op ≠ .close) := by
  by_cases lifecycle : c = .start ∨ c = .close
  · obtain ⟨state, impl⟩ := s
    obtain rfl : state = .closed := closed
    rcases lifecycle with rfl | rfl <;> exact ⟨rfl, trivial⟩
  · obtain ⟨start, close⟩ := not_or.mp lifecycle
    obtain ⟨same, transfers⟩ := call_transfer s start close
    refine ⟨by rw [same, closed], transfers.mono fun op transfer closing => ?_⟩
    rw [closing] at transfer
    cases transfer

theorem closed_runCalls (closed : s.state = .closed) (calls : List SocketCall) :
    ∀ event ∈ (s.runCalls world history calls).1, event.op ≠ .close := by
  induction calls generalizing s history with
  | nil =>
    intro event performed
    cases performed
  | cons c cs ih =>
    intro event performed
    obtain ⟨still, only⟩ := closed_call closed c
    rcases List.mem_append.mp performed with now | later
    · exact only.run event now
    · exact ih still event later

/-- The TLS stream is shut down without error, and the coroutine that does so has not been
    cancelled by then. -/
def tlsShutsDown (world : StreamWorld) (history : List StreamEvent) : Prop :=
  world (history ++ [⟨.cancel, world history .cancel⟩]) .tlsShutdown = (.success, false)

def closable (impl : SocketClass) (world : StreamWorld) (history : List StreamEvent) : Prop :=
  match impl with
  | .tcp _ => True
  | .ssl s => s.ssl = true → tlsShutsDown world history

/-- What `SSLSocket::close` does once the shutdown of the TLS stream has been answered. -/
def afterShutdown (answer : ErrorCode × Bool) : Await Unit := do
  finish answer.1 ()
  if answer.2 then .raise (.systemError .operationCanceled)
  TCPSocket.close

theorem afterShutdown_success : afterShutdown (.success, false) = TCPSocket.close := rfl

theorem afterShutdown_failure {answer : ErrorCode × Bool} (failed : answer ≠ (.success, false)) :
    ∃ e, afterShutdown answer = .raise e := by
  obtain ⟨ec, cancelled⟩ := answer
  by_cases success : ec = .success
  · subst success
    cases cancelled with
    | false => exact absurd rfl failed
    | true => exact ⟨_, rfl⟩
  · refine ⟨.systemError ec, ?_⟩
    unfold afterShutdown finish
    rw [if_neg success]
    rfl

theorem sslClose_eq (t : SSLSocket) (on : t.ssl = true) :
    t.close = .perform .cancel fun _ => .perform .tlsShutdown afterShutdown := by
  unfold SSLSocket.close
  rw [on]
  rfl

theorem tcpClose_closes (events : List StreamEvent) :
    ClosesTcp (events ++ (TCPSocket.close.run world history).1) := by
  unfold ClosesTcp
  rw [tcpClose_run, List.map_append]
  exact List.sublist_append_of_sublist_right (List.Sublist.refl _)

theorem sslClose_closes (t : SSLSocket) :
    ClosesTcp (t.close.run world history).1 ↔ (t.ssl = true → tlsShutsDown world history) := by
  cases on : t.ssl with
  | false =>
    have plain : t.close = TCPSocket.close := by
      unfold SSLSocket.close
      rw [on]
      rfl
    rw [plain]
    exact iff_of_true (tcpClose_closes []) (fun h => by cases h)
  | true =>
    rw [sslClose_eq t on]
    simp only [run_perform, forall_const]
    by_cases answered : tlsShutsDown world history
    · refine iff_of_true ?_ answered
      unfold tlsShutsDown at answered
      rw [answered, afterShutdown_success]
      exact tcpClose_closes [_, _]
    · refine iff_of_false ?_ answered
      obtain ⟨e, raised⟩ := afterShutdown_failure answered
      rw [raised]
      exact not_closesTcp (by simp)

/-- The TCP stream of a started socket is closed by `co_close`, or by a later call, if and only
    if the socket does without TLS or the TLS stream is shut down cleanly. -/
theorem close_iff (s : Socket) (started : s.state = .started) (world : StreamWorld)
    (history : List StreamEvent) :
    let events := ((s.call .close).2.run world history).1
    (ClosesTcp events ∨
        ∃ calls, ClosesTcp ((s.call .close).1.runCalls world (history ++ events) calls).1) ↔
      closable s.impl world history := by
  obtain ⟨state, impl⟩ := s
  obtain rfl : state = .started := started
  have body : ((Socket.call ⟨.started, impl⟩ .close).2.run world history).1 =
      (impl.close.run world history).1 := run_bind_events _
  have never (calls : List SocketCall) (before : List StreamEvent) :
      ¬ ClosesTcp ((Socket.call ⟨.started, impl⟩ .close).1.runCalls world before calls).1 :=
    not_closesTcp (closed_runCalls rfl calls)
  dsimp only
  rw [body]
  refine (or_iff_left fun later => ?_).trans ?_
  · obtain ⟨calls, closes⟩ := later
    exact never calls _ closes
  · cases impl with
    | tcp t => exact iff_of_true (tcpClose_closes []) trivial
    | ssl t => exact sslClose_closes t

theorem close_iff_accepting :
    let s : Socket := ⟨.started, .ssl .new⟩
    let events := ((s.call .close).2.run accepting []).1
    ClosesTcp events ∨
      ∃ calls, ClosesTcp ((s.call .close).1.runCalls accepting ([] ++ events) calls).1 :=
  (close_iff ⟨.started, .ssl .new⟩ rfl accepting []).mpr fun _ => rfl

/-- A connection whose other end leaves without a TLS shutdown. -/
def truncating : StreamWorld
  | _, .tlsShutdown => (.other 1, false)
  | history, op => accepting history op

/-- After a TLS shutdown that fails the TCP stream is left open for good. -/
theorem left_open :
    let s : Socket := ⟨.started, .ssl .new⟩
    let events := ((s.call .close).2.run truncating []).1
    events.map Event.op = [.cancel, .tlsShutdown] ∧ (s.call .close).1.state = .closed ∧
      ¬ (ClosesTcp events ∨
        ∃ calls, ClosesTcp ((s.call .close).1.runCalls truncating ([] ++ events) calls).1) := by
  refine ⟨rfl, rfl, ?_⟩
  rintro (closes | ⟨calls, closes⟩)
  · exact absurd closes (by decide)
  · exact not_closesTcp (closed_runCalls rfl calls) closes

end Socket

end BoostBase
