import BoostBase.Network.ProxyPairInvariant
import BoostBase.Transition.Relay

namespace BoostBase

open Asio Transition LastOut

/-- `SessionOpBase::DEFAULT_BUFFER_SIZE`, the largest read `some` asks for by itself. -/
def defaultBufferSize : Nat := 128 * 1024

/-- Two linked sessions with the bytes their `work` loops carry: `flow x` is the reader buffer
    of `x` and what has gone through it to the socket of the other session. -/
structure ProxyStream where
  pair : ProxyPair
  flow : Side → Relay UInt8

namespace ProxyStream

open ProxyDataSession ProxyPair

def setFlow (p : ProxyStream) (x : Side) (f : Relay UInt8) : Side → Relay UInt8 :=
  Function.update p.flow x f

def readSize (f : Relay UInt8) : Nat := min defaultBufferSize f.buffer.length

/-- The operation the handler in front of a strand is about to start. -/
def headOp (p : ProxyPair) (x : Side) : Option SocketOpKind :=
  match (p.session x).strand with
  | [] => none
  | h :: rest =>
    (({ p.session x with strand := rest } : ProxyDataSession).execute (p.alive x.other) h).op

/-- `SessionWriter::all` starts a write out of the reader buffer. -/
def issued (f : Relay UInt8) : Option SocketOpKind → Relay UInt8
  | some .write => f.beginWrite
  | some .read | none => f

def reading (x : Side) : SocketOp := ⟨.read, x, x⟩

def writing (x : Side) : SocketOp := ⟨.write, x.other, x⟩

/-- A read ends with the bytes it has put into the buffer, a write takes its bytes out of the
    buffer bit by bit and succeeds once it has taken them all. -/
inductive Action
  | start (x : Side)
  | stop (x : Side)
  | emit (x : Side)
  | release (x : Side)
  | prepared (x : Side) (failure : Option Exception)
  | readDone (x : Side) (bytes : List UInt8)
  | readFailed (x : Side) (e : Exception)
  | progress (x : Side) (n : Nat)
  | writeDone (x : Side)
  | writeFailed (x : Side) (e : Exception)
  | run (x : Side)

def advance (p : ProxyStream) (a : ProxyPair.Action) (flow : Side → Relay UInt8) :
    Option ProxyStream :=
  (ProxyPair.machine.next p.pair a).map fun pair => ⟨pair, flow⟩

def machine (buffer : Side → List UInt8) : Machine ProxyStream Action where
  initial := ⟨.new, fun x => .new (buffer x)⟩
  next p
    | .start x => p.advance (.start x) p.flow
    | .stop x => p.advance (.stop x) p.flow
    | .emit x => p.advance (.emit x) p.flow
    | .release x => p.advance (.release x) p.flow
    | .prepared x failure =>
      if (p.pair.session x).phase = .preparing then p.advance (.complete x failure) p.flow else none
    | .readDone x bytes =>
      if reading x ∈ p.pair.ops ∧ bytes.length ≤ readSize (p.flow x) then
        p.advance (.complete x none) (p.setFlow x ((p.flow x).readDone bytes))
      else none
    | .readFailed x e =>
      if reading x ∈ p.pair.ops then p.advance (.complete x (some e)) p.flow else none
    | .progress x n =>
      if writing x ∈ p.pair.ops then
        ((p.flow x).progress n).map fun f => { p with flow := p.setFlow x f }
      else none
    | .writeDone x =>
      if writing x ∈ p.pair.ops ∧ (p.flow x).writing = some (p.flow x).size then
        p.advance (.complete x none) (p.setFlow x (p.flow x).endWrite)
      else none
    | .writeFailed x e =>
      if writing x ∈ p.pair.ops then
        p.advance (.complete x (some e)) (p.setFlow x (p.flow x).endWrite)
      else none
    | .run x => p.advance (.run x) (p.setFlow x (issued (p.flow x) (headOp p.pair x)))

end ProxyStream

namespace ProxyDataSession

variable {s t : ProxyDataSession} {h : SessionHandler} {rest : List SessionHandler} {side : Side}
  {ops : List SocketOp}

def resumption : SessionHandler → Option (Option Exception)
  | .resume failure => some failure
  | _ => none

/-- How the operation of a session has ended whose coroutine is still to be resumed. -/
def answer (s : ProxyDataSession) : Option (Option Exception) := s.strand.findSome? resumption

theorem resumption_none : resumption h = none ↔ resumed h = false := by
  cases h <;> simp [resumption, resumed]

theorem answer_none (idle : s.resumes = 0) : s.answer = none := by
  unfold answer
  rw [List.findSome?_eq_none_iff]
  intro h member
  rw [resumption_none]
  simpa using List.countP_eq_zero.mp idle h member

theorem answer_post {handlers : List SessionHandler} (unresumed : handlers.countP resumed = 0) :
    ({ s with strand := s.strand ++ handlers } : ProxyDataSession).answer = s.answer := by
  have silent : handlers.findSome? resumption = none := by
    rw [List.findSome?_eq_none_iff]
    intro h member
    rw [resumption_none]
    simpa using List.countP_eq_zero.mp unresumed h member
  simp [answer, List.findSome?_append, silent]

theorem answer_complete (idle : s.resumes = 0) (failure : Option Exception) :
    (s.post (.resume failure)).answer = some failure := by
  have before := answer_none idle
  unfold answer at before
  simp [answer, ProxyDataSession.post, List.findSome?_append, before, resumption]

theorem answer_pop (head : s.strand = h :: rest) (other : resumed h = false) :
    ({ s with strand := rest } : ProxyDataSession).answer = s.answer := by
  simp [answer, head, resumption_none.mpr other]

/-- What the place of `run` says about the bytes it carries. -/
def Carries (s : ProxyDataSession) (r : Relay UInt8) : Prop :=
  match s.phase with
  | .idle | .preparing => r.Level
  | .reading => if s.answer = some none then r.Delivered 0 else r.Level
  | .writing =>
    match s.answer with
    | none => ∃ k, r.writing = some k ∧ r.Delivered k
    | some none => r.Level
    | some (some _) => r.Sound
  | .ended _ _ => r.Sound ∧ (s.state = .read → r.Level)

theorem Carries.sound {r : Relay UInt8} (carries : s.Carries r) : r.Sound := by
  unfold Carries at carries
  split at carries
  · exact carries.sound
  · exact carries.sound
  · split at carries
    · exact carries.sound
    · exact carries.sound
  · split at carries
    · obtain ⟨k, _, delivered⟩ := carries
      exact delivered.sound
    · exact carries.sound
    · exact carries
  · exact carries.1

theorem Carries.congr {r : Relay UInt8} (carries : s.Carries r) (phase : t.phase = s.phase)
    (answer : t.answer = s.answer) (state : t.state = s.state) : t.Carries r := by
  unfold Carries at carries ⊢
  rw [phase, answer, state]
  exact carries

theorem execute_op (otherAlive : Bool) (other : resumed h = false) :
    (s.execute otherAlive h).op = none := by
  cases h with
  | stop =>
    simp only [execute, stopBody]
    split <;> rfl
  | resume failure => cases other
  | start | emit | otherDone => rfl

theorem Executed.carries {r : Relay UInt8} (executed : Executed { s with strand := rest } h t)
    (head : s.strand = h :: rest) (other : resumed h = false) (placed : s.Placed)
    (carries : s.Carries r) : t.Carries r := by
  have popped := answer_pop head other
  have same (phase : t.phase = s.phase) (state : t.state = s.state)
      (strand : t.strand = rest ∨ t.strand = rest ++ [.stop]) : t.Carries r := by
    refine carries.congr phase ?_ state
    rw [← popped]
    rcases strand with same | more
    · simp [answer, same]
    · have unresumed : [SessionHandler.stop].countP resumed = 0 := rfl
      rw [← answer_post (s := { s with strand := rest }) unresumed]
      simp [answer, more]
  cases executed with
  | refused | stopped | stops | marks | silent => exact same rfl rfl (.inl rfl)
  | told lastState => exact same rfl rfl (by cases lastState <;> simp)
  | entered fresh =>
    have idle := placed.idle fresh
    unfold Carries at carries
    rw [idle] at carries
    exact carries
  | idles | waits | ends => cases other

theorem endRun_lastState (s : ProxyDataSession) (worked : Bool) (e : Option Exception) :
    (s.endRun worked e).state = s.state := by
  unfold endRun
  dsimp only
  split <;> rfl

theorem resume_carries {failure : Option Exception} {r : Relay UInt8} (ok : SessionOk side ops s)
    (head : s.strand = .resume failure :: rest) (carries : s.Carries r) (otherAlive : Bool) :
    (({ s with strand := rest } : ProxyDataSession).resume otherAlive failure).own.Carries
      (ProxyStream.issued r
        (({ s with strand := rest } : ProxyDataSession).resume otherAlive failure).op) := by
  obtain ⟨active, _⟩ := resume_ok ok head otherAlive
  have queued : s.answer = some failure := by
    unfold answer
    rw [head]
    rfl
  have unanswered : rest.findSome? resumption = none := by
    have single := ok.single
    rw [resumes, head, List.countP_cons_of_pos rfl] at single
    have idle : rest.countP resumed = 0 := by omega
    exact answer_none (s := { s with strand := rest }) idle
  have placed := ok.placed
  unfold Carries at carries
  unfold Placed at placed
  rw [queued] at carries
  have ended (z : ProxyDataSession) (worked : Bool) (e : Option Exception)
      (sound : r.Sound) (level : z.state = .read → r.Level) : (z.endRun worked e).Carries r := by
    exact ⟨sound, fun read => level ((endRun_lastState z worked e).symm.trans read)⟩
  have cases := resume_cases (x := { s with strand := rest }) active otherAlive failure
  revert cases
  generalize ({ s with strand := rest } : ProxyDataSession).resume otherAlive failure = o
  intro cases
  cases cases with
  | reads before =>
    have level : r.Level := by
      rcases before with ⟨preparing, _⟩ | writing
      · simpa [show s.phase = .preparing from preparing] using carries
      · simpa [show s.phase = .writing from writing] using carries
    simpa [Carries, answer, unanswered, ProxyStream.issued] using level
  | writes before =>
    have delivered : r.Delivered 0 := by simpa [show s.phase = .reading from before] using carries
    simpa [Carries, answer, unanswered] using ⟨0, rfl, delivered.beginWrite⟩
  | unprepared before | preparedLate before | alone before =>
    have level : r.Level := by simpa [show s.phase = .preparing from before] using carries
    exact ended _ _ _ level.sound fun _ => level
  | loopOver before =>
    have level : r.Level := by
      rcases before with ⟨preparing, _⟩ | writing
      · simpa [show s.phase = .preparing from preparing] using carries
      · simpa [show s.phase = .writing from writing] using carries
    exact ended _ _ _ level.sound fun _ => level
  | readCancelled before =>
    have level : r.Level := by simpa [show s.phase = .writing from before] using carries
    exact ended _ _ _ level.sound fun _ => level
  | writeCancelled before =>
    have delivered : r.Delivered 0 := by simpa [show s.phase = .reading from before] using carries
    exact ended _ _ _ delivered.sound fun read => (by cases read)
  | readFails before e =>
    have level : r.Level := by simpa [show s.phase = .reading from before] using carries
    exact ended _ _ _ level.sound fun _ => level
  | writeFails before e =>
    have sound : r.Sound := by simpa [show s.phase = .writing from before] using carries
    have write : s.state = .write := by
      rw [show s.phase = .writing from before] at placed
      exact placed.2
    refine ended _ _ _ sound fun read => ?_
    exact absurd (write.symm.trans read) (by decide)

theorem execute_carries {r : Relay UInt8} (ok : SessionOk side ops s) (head : s.strand = h :: rest)
    (carries : s.Carries r) (otherAlive : Bool) :
    (({ s with strand := rest } : ProxyDataSession).execute otherAlive h).own.Carries
      (ProxyStream.issued r
        (({ s with strand := rest } : ProxyDataSession).execute otherAlive h).op) := by
  cases kind : resumed h with
  | false =>
    rw [execute_op otherAlive kind]
    exact (executed _ otherAlive h).carries head kind ok.placed carries
  | true =>
    cases h with
    | resume failure => exact resume_carries ok head carries otherAlive
    | start | stop | emit | otherDone => cases kind

theorem execute_unresumed (s : ProxyDataSession) (otherAlive : Bool) (h : SessionHandler) :
    (s.execute otherAlive h).toOther.countP resumed = 0 :=
  toOther_countP resumed rfl (fun _ => rfl) s otherAlive h

theorem Executed.over_stays (executed : Executed { s with strand := rest } h t) (placed : s.Placed)
    (isOver : s.phase.isOver = true) : t.phase = s.phase ∧ t.state = s.state := by
  have inactive : s.phase.active = false := by
    cases phase : s.phase <;> simp_all [SessionPhase.active, SessionPhase.isOver]
  cases executed with
  | entered fresh =>
    rw [placed.idle fresh] at isOver
    cases isOver
  | waits active | ends active => exact absurd (inactive.symm.trans active) (by decide)
  | refused | stopped | stops | marks | silent | told | idles => exact ⟨rfl, rfl⟩

theorem execute_reports {otherAlive : Bool} {lastState : ProxyState}
    (sent : .otherDone lastState ∈ (s.execute otherAlive h).toOther) :
    (s.execute otherAlive h).own.phase.isOver = true ∧
      (s.execute otherAlive h).own.state = lastState := by
  have ended (z : ProxyDataSession) (e : Option Exception)
      (notice : .otherDone lastState ∈ (z.endWork e).toOther) :
      (z.endWork e).own.phase.isOver = true ∧ (z.endWork e).own.state = lastState := by
    simp only [endWork] at notice ⊢
    split at notice
    · cases notice
    · obtain rfl : lastState = z.state := by simpa using notice
      exact ⟨rfl, endRun_lastState z true e⟩
  cases h with
  | start | emit | otherDone _ => cases sent
  | stop =>
    simp only [execute, stopBody] at sent
    split at sent
    · cases sent
    · dsimp only at sent
      split at sent <;> simp at sent
  | resume failure =>
    simp only [execute] at sent ⊢
    cases active : s.phase.active with
    | false =>
      unfold resume at sent
      cases phase : s.phase <;> simp_all [SessionPhase.active, quietly]
    | true =>
      have cases := resume_cases active otherAlive failure
      revert sent cases
      generalize s.resume otherAlive failure = o
      intro sent cases
      cases cases with
      | reads | writes | unprepared | preparedLate | alone => cases sent
      | loopOver | readCancelled | writeCancelled | readFails | writeFails => exact ended _ _ sent

end ProxyDataSession

namespace ProxyStream

open ProxyDataSession ProxyPair

variable {p q : ProxyStream} {x : Side} {buffer : Side → List UInt8}

theorem advance_some {a : ProxyPair.Action} {flow : Side → Relay UInt8} :
    p.advance a flow = some q ↔
      ∃ pair, ProxyPair.machine.next p.pair a = some pair ∧ ⟨pair, flow⟩ = q := by
  simp [advance]

theorem advance_pair {a : ProxyPair.Action} {flow : Side → Relay UInt8}
    (taken : p.advance a flow = some q) : ProxyPair.machine.Steps p.pair q.pair := by
  obtain ⟨pair, stepped, rfl⟩ := advance_some.mp taken
  exact .single stepped

/-- With the bytes forgotten, the sessions run as a pair. -/
theorem next_pair {a : Action} (taken : (machine buffer).next p a = some q) :
    ProxyPair.machine.Steps p.pair q.pair := by
  cases a with
  | start x | stop x | emit x | release x | run x =>
    simp only [machine] at taken
    exact advance_pair taken
  | prepared x failure =>
    simp only [machine, Option.ite_none_right_eq_some] at taken
    exact advance_pair taken.2
  | readDone x bytes | readFailed x e | writeDone x | writeFailed x e =>
    simp only [machine, Option.ite_none_right_eq_some] at taken
    exact advance_pair taken.2
  | progress x n =>
    simp only [machine, Option.ite_none_right_eq_some, Option.map_eq_some_iff] at taken
    obtain ⟨_, f, _, rfl⟩ := taken
    exact .refl _

theorem outstanding_own {op : SocketOp} (ok : PairOk p.pair) (outstanding : op ∈ p.pair.ops) :
    op ∈ (p.pair.session op.issuer).outstanding op.issuer := by
  rw [← (ok.sessions op.issuer).ops]
  exact List.mem_filter.mpr ⟨outstanding, by simp⟩

theorem reading_outstanding (ok : PairOk p.pair) (outstanding : reading x ∈ p.pair.ops) :
    (p.pair.session x).phase = .reading ∧ (p.pair.session x).suspended = true := by
  have own : reading x ∈ (p.pair.session x).outstanding x := outstanding_own ok outstanding
  unfold ProxyDataSession.outstanding at own
  split at own
  · rename_i suspended
    refine ⟨?_, suspended⟩
    cases phase : (p.pair.session x).phase <;> simp_all [reading]
  · cases own

theorem writing_outstanding (ok : PairOk p.pair) (outstanding : writing x ∈ p.pair.ops) :
    (p.pair.session x).phase = .writing ∧ (p.pair.session x).suspended = true := by
  have own : writing x ∈ (p.pair.session x).outstanding x := outstanding_own ok outstanding
  unfold ProxyDataSession.outstanding at own
  split at own
  · rename_i suspended
    refine ⟨?_, suspended⟩
    cases phase : (p.pair.session x).phase <;> simp_all [writing]
  · cases own

structure StreamOk (p : ProxyStream) : Prop where
  pair : PairOk p.pair
  carries : ∀ x, (p.pair.session x).Carries (p.flow x)
  reported : ∀ x, .otherDone .read ∈ (p.pair.session x.other).strand →
    (p.pair.session x).phase.isOver = true ∧ (p.pair.session x).state = .read

theorem posted_ok (ok : StreamOk p) (h : SessionHandler) (unresumed : resumed h = false)
    (unnoticed : h ≠ .otherDone .read) {pair : ProxyPair} (good : PairOk pair)
    (sessions : pair.session = (p.pair.post x h).session) : StreamOk ⟨pair, p.flow⟩ := by
  refine ⟨good, fun y => ?_, fun y queued => ?_⟩
  · simp only [sessions, post_session]
    split
    · exact (ok.carries y).congr rfl (answer_post (by simp [unresumed])) rfl
    · exact ok.carries y
  · have same (z : Side) : ((p.pair.post x h).session z).phase = (p.pair.session z).phase ∧
        ((p.pair.post x h).session z).state = (p.pair.session z).state := by
      rw [post_session]
      split <;> exact ⟨rfl, rfl⟩
    simp only [sessions] at queued ⊢
    rw [(same y).1, (same y).2]
    apply ok.reported y
    rw [post_session] at queued
    split at queued
    · simpa [ProxyDataSession.post, Ne.symm unnoticed] using queued
    · exact queued

theorem posts_ok (ok : StreamOk p) (h : SessionHandler) (unresumed : resumed h = false)
    (unnoticed : h ≠ .otherDone .read) {a : ProxyPair.Action} (pair : ProxyPair)
    (next : ProxyPair.machine.next p.pair a = if p.pair.alive x then some pair else none)
    (sessions : pair.session = (p.pair.post x h).session) (taken : p.advance a p.flow = some q) :
    StreamOk q := by
  obtain ⟨pair, stepped, rfl⟩ := advance_some.mp taken
  have good := ProxyPair.ok_next ok.pair stepped
  rw [next] at stepped
  simp only [Option.ite_none_right_eq_some, Option.some.injEq] at stepped
  obtain ⟨_, rfl⟩ := stepped
  exact posted_ok ok h unresumed unnoticed good sessions

theorem completed_ok (ok : StreamOk p) (failure : Option Exception)
    (suspended : (p.pair.session x).suspended = true) {f : Relay UInt8}
    (carries : ∀ t : ProxyDataSession, t.phase = (p.pair.session x).phase →
      t.state = (p.pair.session x).state → t.answer = some failure → t.Carries f) :
    StreamOk ⟨p.pair.complete x failure, p.setFlow x f⟩ := by
  have idle := (suspended_iff.mp suspended).2
  refine ⟨complete_ok ok.pair suspended failure, fun y => ?_, fun y queued => ?_⟩
  · change ((p.pair.post x (.resume failure)).session y).Carries (p.setFlow x f y)
    rw [post_session]
    by_cases same : y = x
    · subst same
      rw [if_pos rfl]
      simp only [setFlow, Function.update_self]
      exact carries _ rfl rfl (answer_complete idle failure)
    · rw [if_neg same]
      simp only [setFlow, Function.update_of_ne same]
      exact ok.carries y
  · change SessionHandler.otherDone .read ∈
      ((p.pair.post x (.resume failure)).session y.other).strand at queued
    change ((p.pair.post x (.resume failure)).session y).phase.isOver = true ∧
      ((p.pair.post x (.resume failure)).session y).state = .read
    have before : SessionHandler.otherDone .read ∈ (p.pair.session y.other).strand := by
      rw [post_session] at queued
      split at queued
      · simpa [ProxyDataSession.post] using queued
      · exact queued
    rw [post_session]
    split <;> exact ok.reported y before

theorem ran_ok (ok : StreamOk p) {pair : ProxyPair} (ran : p.pair.runHead x = some pair) :
    StreamOk ⟨pair, p.setFlow x (issued (p.flow x) (headOp p.pair x))⟩ := by
  obtain ⟨h, rest, o, head, output, executed, own, other, _⟩ := runHead_output ran
  have op : headOp p.pair x = o.op := by
    unfold headOp
    rw [head, output]
  refine ⟨runHead_ok ok.pair ran, ?_, ?_⟩
  · rw [Side.forall_iff x]
    constructor
    · simp only [setFlow, Function.update_self]
      rw [own, op, output]
      exact execute_carries (ok.pair.sessions x) head (ok.carries x) _
    · simp only [setFlow, Function.update_of_ne (Side.other_ne x)]
      rw [other]
      exact (ok.carries x.other).congr rfl (answer_post (output ▸ execute_unresumed _ _ _)) rfl
  · rw [Side.forall_iff x]
    constructor
    · intro queued
      rw [other] at queued
      rcases List.mem_append.mp queued with before | sent
      · obtain ⟨over_, read⟩ := ok.reported x before
        obtain ⟨phase, state⟩ := executed.over_stays (ok.pair.sessions x).placed over_
        exact ⟨phase ▸ over_, state ▸ read⟩
      · rw [own]
        rw [output] at sent ⊢
        exact execute_reports sent
    · intro queued
      rw [Side.other_other] at queued
      rw [other]
      apply ok.reported x.other
      rw [Side.other_other, head]
      rcases executed.strand with same | more
      · rw [same] at queued
        exact List.mem_cons_of_mem _ queued
      · rw [more] at queued
        exact List.mem_cons_of_mem _ (by simpa using queued)

theorem reading_level (ok : StreamOk p) (outstanding : reading x ∈ p.pair.ops) :
    (p.flow x).Level := by
  obtain ⟨phase, suspended⟩ := reading_outstanding ok.pair outstanding
  have carries := ok.carries x
  unfold Carries at carries
  rw [phase, answer_none (suspended_iff.mp suspended).2] at carries
  simpa using carries

theorem writing_delivered (ok : StreamOk p) (outstanding : writing x ∈ p.pair.ops) :
    ∃ k, (p.flow x).writing = some k ∧ (p.flow x).Delivered k := by
  obtain ⟨phase, suspended⟩ := writing_outstanding ok.pair outstanding
  have carries := ok.carries x
  unfold Carries at carries
  rw [phase, answer_none (suspended_iff.mp suspended).2] at carries
  exact carries

theorem progress_ok (ok : StreamOk p) (outstanding : writing x ∈ p.pair.ops) {n : Nat}
    {f : Relay UInt8} (taken : (p.flow x).progress n = some f) :
    StreamOk { p with flow := p.setFlow x f } := by
  obtain ⟨phase, suspended⟩ := writing_outstanding ok.pair outstanding
  obtain ⟨k, writing, delivered⟩ := writing_delivered ok outstanding
  have further := delivered.progress writing taken
  refine ⟨ok.pair, fun y => ?_, ok.reported⟩
  by_cases same : y = x
  · subst same
    simp only [setFlow, Function.update_self]
    unfold Carries
    rw [phase, answer_none (suspended_iff.mp suspended).2]
    exact ⟨k + n, further⟩
  · simp only [setFlow, Function.update_of_ne same]
    exact ok.carries y

theorem setFlow_self (p : ProxyStream) (x : Side) : p.setFlow x (p.flow x) = p.flow :=
  Function.update_eq_self x p.flow

theorem complete_some {failure : Option Exception} {flow : Side → Relay UInt8}
    (taken : p.advance (.complete x failure) flow = some q) :
    (p.pair.session x).suspended = true ∧ q = ⟨p.pair.complete x failure, flow⟩ := by
  obtain ⟨pair, stepped, rfl⟩ := advance_some.mp taken
  simp only [ProxyPair.machine, Option.ite_none_right_eq_some, Option.some.injEq] at stepped
  exact ⟨stepped.1, by rw [stepped.2]⟩

theorem ok_next {a : Action} (ok : StreamOk p) (taken : (machine buffer).next p a = some q) :
    StreamOk q := by
  cases a with
  | start x => exact posts_ok ok .start rfl (by decide) (p.pair.start x) rfl rfl taken
  | stop x => exact posts_ok ok .stop rfl (by decide) (p.pair.post x .stop) rfl rfl taken
  | emit x => exact posts_ok ok .emit rfl (by decide) (p.pair.post x .emit) rfl rfl taken
  | release x =>
    simp only [machine] at taken
    obtain ⟨pair, stepped, rfl⟩ := advance_some.mp taken
    have good := ProxyPair.ok_next ok.pair stepped
    cases stepped
    exact ⟨good, ok.carries, ok.reported⟩
  | prepared x failure =>
    simp only [machine, Option.ite_none_right_eq_some] at taken
    obtain ⟨phase, taken⟩ := taken
    obtain ⟨suspended, rfl⟩ := complete_some taken
    rw [← setFlow_self p x]
    have carries := ok.carries x
    unfold Carries at carries
    rw [phase] at carries
    refine completed_ok ok failure suspended fun t same _ _ => ?_
    unfold Carries
    rw [same, phase]
    exact carries
  | readDone x bytes =>
    simp only [machine, Option.ite_none_right_eq_some] at taken
    obtain ⟨⟨outstanding, _⟩, taken⟩ := taken
    obtain ⟨suspended, rfl⟩ := complete_some taken
    have level := reading_level ok outstanding
    refine completed_ok ok none suspended fun t same _ answered => ?_
    unfold Carries
    rw [same, (reading_outstanding ok.pair outstanding).1, answered]
    exact level.readDone bytes
  | readFailed x e =>
    simp only [machine, Option.ite_none_right_eq_some] at taken
    obtain ⟨outstanding, taken⟩ := taken
    obtain ⟨suspended, rfl⟩ := complete_some taken
    rw [← setFlow_self p x]
    have level := reading_level ok outstanding
    refine completed_ok ok (some e) suspended fun t same _ answered => ?_
    unfold Carries
    rw [same, (reading_outstanding ok.pair outstanding).1, answered]
    exact level
  | progress x n =>
    simp only [machine, Option.ite_none_right_eq_some, Option.map_eq_some_iff] at taken
    obtain ⟨outstanding, f, progressed, rfl⟩ := taken
    exact progress_ok ok outstanding progressed
  | writeDone x =>
    simp only [machine, Option.ite_none_right_eq_some] at taken
    obtain ⟨⟨outstanding, whole⟩, taken⟩ := taken
    obtain ⟨suspended, rfl⟩ := complete_some taken
    obtain ⟨k, writing, delivered⟩ := writing_delivered ok outstanding
    obtain rfl : k = (p.flow x).size := Option.some.inj (writing.symm.trans whole)
    refine completed_ok ok none suspended fun t same _ answered => ?_
    unfold Carries
    rw [same, (writing_outstanding ok.pair outstanding).1, answered]
    exact delivered.endWrite.level
  | writeFailed x e =>
    simp only [machine, Option.ite_none_right_eq_some] at taken
    obtain ⟨outstanding, taken⟩ := taken
    obtain ⟨suspended, rfl⟩ := complete_some taken
    obtain ⟨k, writing, delivered⟩ := writing_delivered ok outstanding
    refine completed_ok ok (some e) suspended fun t same _ answered => ?_
    unfold Carries
    rw [same, (writing_outstanding ok.pair outstanding).1, answered]
    exact delivered.endWrite.sound
  | run x =>
    obtain ⟨pair, stepped, rfl⟩ := advance_some.mp taken
    exact ran_ok ok stepped

theorem initial_ok (buffer : Side → List UInt8) : StreamOk (machine buffer).initial := by
  refine ⟨?_, fun x => Relay.new_level _, fun x queued => by cases queued⟩
  exact pairOk Machine.Reachable.initial

/-- What was written to the other socket is what was read from its own one, but for the end of
    the last chunk; nothing is missing after an end on a read, and so where one is reported. -/
structure Exact (p : ProxyStream) : Prop where
  exclusive : ∀ x, writing x ∈ p.pair.ops → reading x ∉ p.pair.ops
  leads : ∀ x, (p.flow x).written <+: (p.flow x).chunks.flatten
  missing : ∀ x, (p.flow x).Sound
  ended : ∀ x, (p.pair.session x).phase.isOver = true → (p.pair.session x).state = .read →
    (p.flow x).written = (p.flow x).chunks.flatten
  reported : ∀ x, .otherDone .read ∈ (p.pair.session x.other).strand →
    (p.flow x).written = (p.flow x).chunks.flatten

theorem StreamOk.exact (ok : StreamOk p) : Exact p := by
  have ended (x : Side) (isOver : (p.pair.session x).phase.isOver = true)
      (read : (p.pair.session x).state = .read) : (p.flow x).Level := by
    have carries := ok.carries x
    unfold Carries at carries
    cases phase : (p.pair.session x).phase with
    | ended worked e =>
      rw [phase] at carries
      exact carries.2 read
    | idle | preparing | reading | writing =>
      rw [phase] at isOver
      cases isOver
  refine ⟨fun x writes reads => ?_, fun x => (ok.carries x).sound.leads,
    fun x => (ok.carries x).sound, ended, fun x queued => ?_⟩
  · have phase := (writing_outstanding ok.pair writes).1
    rw [(reading_outstanding ok.pair reads).1] at phase
    cases phase
  · obtain ⟨isOver, read⟩ := ok.reported x queued
    exact ended x isOver read

/-- While a write is outstanding the buffer it writes from stays as it is. -/
def BufferKept (p : ProxyStream) (_ : Action) (q : ProxyStream) : Prop :=
  ∀ x, writing x ∈ p.pair.ops → (q.flow x).buffer = (p.flow x).buffer

theorem setFlow_same {β : Type*} (part : Relay UInt8 → β) {f : Relay UInt8}
    (same : part f = part (p.flow x)) (y : Side) : part (p.setFlow x f y) = part (p.flow y) := by
  by_cases here : y = x
  · subst here
    simpa [setFlow] using same
  · simp [setFlow, here]

theorem issued_same (f : Relay UInt8) (op : Option SocketOpKind) :
    (issued f op).buffer = f.buffer ∧ (issued f op).chunks = f.chunks := by
  cases op with
  | none => exact ⟨rfl, rfl⟩
  | some kind => cases kind <;> exact ⟨rfl, rfl⟩

theorem progress_same {f g : Relay UInt8} {n : Nat} (taken : f.progress n = some g) :
    g.buffer = f.buffer ∧ g.chunks = f.chunks := by
  unfold Relay.progress at taken
  split at taken
  · cases taken
  · simp only [Option.ite_none_right_eq_some, Option.some.injEq] at taken
    obtain ⟨_, rfl⟩ := taken
    exact ⟨rfl, rfl⟩

theorem bufferKept (ok : StreamOk p) {a : Action} (taken : (machine buffer).next p a = some q) :
    BufferKept p a q := by
  intro y outstanding
  cases a with
  | start x | stop x | emit x | release x =>
    simp only [machine] at taken
    obtain ⟨pair, _, rfl⟩ := advance_some.mp taken
    rfl
  | prepared x failure | readFailed x e =>
    simp only [machine, Option.ite_none_right_eq_some] at taken
    obtain ⟨_, rfl⟩ := complete_some taken.2
    rfl
  | readDone x bytes =>
    simp only [machine, Option.ite_none_right_eq_some] at taken
    obtain ⟨⟨reads, _⟩, taken⟩ := taken
    obtain ⟨_, rfl⟩ := complete_some taken
    by_cases same : y = x
    · subst same
      exact absurd reads (ok.exact.exclusive y outstanding)
    · simp [setFlow, same]
  | progress x n =>
    simp only [machine, Option.ite_none_right_eq_some, Option.map_eq_some_iff] at taken
    obtain ⟨_, f, progressed, rfl⟩ := taken
    exact setFlow_same Relay.buffer (progress_same progressed).1 y
  | writeDone x | writeFailed x e =>
    simp only [machine, Option.ite_none_right_eq_some] at taken
    obtain ⟨_, rfl⟩ := complete_some taken.2
    have ended : (p.flow x).endWrite.buffer = (p.flow x).buffer := rfl
    exact setFlow_same Relay.buffer ended y
  | run x =>
    obtain ⟨pair, _, rfl⟩ := advance_some.mp taken
    exact setFlow_same Relay.buffer (issued_same _ _).1 y

def received (x : Side) : Action → Option (List UInt8)
  | .readDone y bytes => if y = x then some bytes else none
  | _ => none

theorem chunks_next {a : Action} (taken : (machine buffer).next p a = some q) (y : Side) :
    (q.flow y).chunks = (p.flow y).chunks ++ (received y a).toList := by
  have silent (same : (q.flow y).chunks = (p.flow y).chunks) (none_ : received y a = none) :
      (q.flow y).chunks = (p.flow y).chunks ++ (received y a).toList := by
    rw [none_, same]
    exact (List.append_nil _).symm
  cases a with
  | start x | stop x | emit x | release x =>
    simp only [machine] at taken
    obtain ⟨pair, _, rfl⟩ := advance_some.mp taken
    exact silent rfl rfl
  | prepared x failure | readFailed x e =>
    simp only [machine, Option.ite_none_right_eq_some] at taken
    obtain ⟨_, rfl⟩ := complete_some taken.2
    exact silent rfl rfl
  | readDone x bytes =>
    simp only [machine, Option.ite_none_right_eq_some] at taken
    obtain ⟨_, rfl⟩ := complete_some taken.2
    by_cases same : x = y
    · subst same
      simp [setFlow, received, Relay.readDone]
    · refine silent ?_ (if_neg same)
      simp [setFlow, Ne.symm same]
  | progress x n =>
    simp only [machine, Option.ite_none_right_eq_some, Option.map_eq_some_iff] at taken
    obtain ⟨_, f, progressed, rfl⟩ := taken
    exact silent (setFlow_same Relay.chunks (progress_same progressed).2 y) rfl
  | writeDone x | writeFailed x e =>
    simp only [machine, Option.ite_none_right_eq_some] at taken
    obtain ⟨_, rfl⟩ := complete_some taken.2
    have ended : (p.flow x).endWrite.chunks = (p.flow x).chunks := rfl
    exact silent (setFlow_same Relay.chunks ended y) rfl
  | run x =>
    obtain ⟨pair, _, rfl⟩ := advance_some.mp taken
    exact silent (setFlow_same Relay.chunks (issued_same _ _).2 y) rfl

/-- The chunks of a flow are what the reads of the run have ended with. -/
theorem chunks_received {as : List Action} (ran : (machine buffer).run (machine buffer).initial as = some p)
    (x : Side) : (p.flow x).chunks = as.filterMap (received x) := by
  refine Machine.run_history (m := machine buffer)
    (fun as p => (p.flow x).chunks = as.filterMap (received x)) rfl (fun as p a q kept taken => ?_) ran
  rw [chunks_next taken, kept, List.filterMap_append]
  cases known : received x a <;> simp [known]

/-- In every run of two linked sessions the bytes each loop has written are those it has read,
    but for the end of the last chunk, and no chunk is overwritten while it is being written. -/
theorem stream_exact (buffer : Side → List UInt8) (as : List Action) :
    (machine buffer).Visits Exact (machine buffer).initial as ∧
      (machine buffer).Always BufferKept (machine buffer).initial as := by
  constructor
  · refine Machine.visits_iff.mpr fun bs cs p split ran => ?_
    exact (Machine.Reachable.invariant (I := StreamOk) (initial_ok buffer)
      (fun _ _ _ ok taken => ok_next ok taken) ⟨bs, ran⟩).exact
  · exact Machine.always_of_invariant (I := StreamOk) (fun _ _ _ ok taken => ok_next ok taken)
      (fun _ _ _ ok taken => bufferKept ok taken) (initial_ok buffer) as

/-- A write that fails within the chunk. -/
example : ((machine fun _ => [0, 0, 0, 0]).run (machine fun _ => [0, 0, 0, 0]).initial
    [.start .a, .run .a, .prepared .a none, .run .a, .readDone .a [1, 2, 3], .run .a, .progress .a 2,
      .writeFailed .a (.systemError .operationCanceled), .run .a]).map
      (fun p => ((p.flow .a).written, (p.pair.session .a).state)) = some ([1, 2], .write) := by
  rfl

end ProxyStream

end BoostBase
