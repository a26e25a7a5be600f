import BoostBase.Network.ProxyPairEnding

namespace BoostBase

open Asio Transition LastOut

namespace ProxyDataSession

variable {s t : ProxyDataSession} {h : SessionHandler}

/-- A stop of the session has been executed or stands in its strand, or its `run` is
    over. -/
def Doomed (s : ProxyDataSession) : Prop :=
  s.task.state = .done ∨ s.task.state = .stopped ∨ .stop ∈ s.strand ∨ .otherDone .read ∈ s.strand

theorem Doomed.post (doomed : s.Doomed) (handlers : List SessionHandler) :
    ({ s with strand := s.strand ++ handlers } : ProxyDataSession).Doomed := by
  rcases doomed with done | stopped | stop | read
  · exact .inl done
  · exact .inr (.inl stopped)
  · exact .inr (.inr (.inl (List.mem_append_left _ stop)))
  · exact .inr (.inr (.inr (List.mem_append_left _ read)))

theorem Doomed.executed {rest : List SessionHandler} (doomed : s.Doomed) (head : s.strand = h :: rest)
    (executed : Executed { s with strand := rest } h t) : t.Doomed := by
  rcases doomed with done | stopped | stop | read
  · exact (executed.remains (.inl done)).elim .inl fun stopped => .inr (.inl stopped)
  · exact (executed.remains (.inr stopped)).elim .inl fun stopped => .inr (.inl stopped)
  · rw [head] at stop
    rcases List.mem_cons.mp stop with rfl | later
    · cases executed with
      | stopped again => exact .inr (.inl again)
      | stops => exact .inr (.inl rfl)
    · exact .inr (.inr (.inl (executed.keeps later)))
  · rw [head] at read
    rcases List.mem_cons.mp read with rfl | later
    · cases executed with
      | told => exact .inr (.inr (.inl (by simp)))
    · exact .inr (.inr (.inr (executed.keeps later)))

/-- The cancellation of the session's coroutine has arrived or stands in its strand,
    where the coroutine will have begun. -/
def Emitted (s : ProxyDataSession) : Prop :=
  s.cancelled = true ∨
    ∃ before after, s.strand = before ++ .emit :: after ∧ (.start ∈ before ∨ s.phase.active = true)

theorem Emitted.post (emitted : s.Emitted) (handlers : List SessionHandler) :
    ({ s with strand := s.strand ++ handlers } : ProxyDataSession).Emitted := by
  rcases emitted with cancelled | ⟨before, after, split, begun⟩
  · exact .inl cancelled
  · exact .inr ⟨before, after ++ handlers, by simp [split], begun⟩

theorem Emitted.executed {rest : List SessionHandler} (emitted : s.Emitted)
    (head : s.strand = h :: rest) (placed : s.Placed)
    (executed : Executed { s with strand := rest } h t) :
    t.Emitted ∨ (∃ worked e, t.phase = .ended worked e) ∨
      (h = .start ∧ t.phase = .idle) := by
  rcases emitted with cancelled | ⟨before, after, split, begun⟩
  · exact .inl (.inl (executed.cancelled cancelled))
  · have later {before' : List SessionHandler} (split : rest = before' ++ .emit :: after)
        (begun : .start ∈ before' ∨ t.phase.active = true) : t.Emitted := by
      rcases executed.strand with same | more
      · exact .inr ⟨before', after, same.trans split, begun⟩
      · refine .inr ⟨before', after ++ [.stop], ?_, begun⟩
        rw [more]
        simp [split]
    rw [head] at split
    cases before with
    | nil =>
      obtain ⟨rfl, rfl⟩ := List.cons.inj split
      have active := begun.resolve_left (List.not_mem_nil)
      have entered := placed.entered active
      cases executed with
      | marks => exact .inl (.inl rfl)
      | silent unset => exact absurd (unset.symm.trans entered.2) (by decide)
    | cons k before =>
      obtain ⟨rfl, tail⟩ := List.cons.inj split
      rcases begun with started | active
      · rcases List.mem_cons.mp started with rfl | started
        · cases phase : t.phase with
          | idle => exact .inr (.inr ⟨rfl, rfl⟩)
          | ended worked e => exact .inr (.inl ⟨worked, e, rfl⟩)
          | preparing | reading | writing => exact .inl (later tail (.inr (by rw [phase]; rfl)))
        · exact .inl (later tail (.inl started))
      · rcases executed.phase with same | ⟨rfl, fresh, _⟩ | ⟨_, goes | ended⟩
        · exact .inl (later tail (.inr (same ▸ active)))
        · have idle := placed.idle fresh
          simp [idle, SessionPhase.active] at active
        · exact .inl (later tail (.inr goes))
        · exact .inr (.inl ended)

instance (s : ProxyDataSession) : Decidable s.Doomed := inferInstanceAs (Decidable (_ ∨ _))

theorem resume_asks (active : s.phase.active = true) (placed : s.Placed) (failure : Option Exception)
    (past : (s.resume otherAlive failure).own.phase.active = false) :
    .stop ∈ (s.resume otherAlive failure).own.strand ∨
      .otherDone .read ∈ (s.resume otherAlive failure).toOther ∨
      s.otherDone = true ∨ s.task.state = .stopped ∨ otherAlive = false ∨
      ∃ e, failure = some e ∧ e.canceled = false ∧ s.phase ≠ .reading := by
  have canceled (z : ProxyDataSession) (worked : Bool) (e : Exception) (stops : e.canceled = true) :
      .stop ∈ (z.endRun worked (some e)).strand := by
    rw [endRun_strand]
    simp [stops]
  have cases := resume_cases active otherAlive failure
  revert cases past
  generalize s.resume otherAlive failure = o
  intro past cases
  cases cases with
  | reads | writes => cases past
  | unprepared before e =>
    cases stops : e.canceled with
    | true => exact .inl (canceled s false e stops)
    | false => exact .inr (.inr (.inr (.inr (.inr ⟨e, rfl, stops, by simp [before]⟩))))
  | preparedLate => exact .inl (canceled s false _ rfl)
  | alone _ _ lost => exact .inr (.inr (.inr (.inr (.inl lost))))
  | loopOver _ last =>
    rcases last with halted | told
    · have entered := (placed.entered active).1
      have stopped := entered.resolve_left fun running => by
        simp [CoroutineTask.running, running] at halted
      exact .inr (.inr (.inr (.inl stopped.1)))
    · exact .inr (.inr (.inl told))
  | readCancelled => exact .inl (canceled _ true _ rfl)
  | writeCancelled => exact .inl (canceled _ true _ rfl)
  | readFails before e =>
    cases told : s.otherDone with
    | true => exact .inr (.inr (.inl rfl))
    | false =>
      unfold Placed at placed
      rw [before] at placed
      exact .inr (.inl (by simp [endWork, told, placed.2]))
  | writeFails before e =>
    cases stops : e.canceled with
    | true => exact .inl (canceled s true e stops)
    | false => exact .inr (.inr (.inr (.inr (.inr ⟨e, rfl, stops, by simp [before]⟩))))

end ProxyDataSession

namespace ProxyPair

open ProxyDataSession

variable {p q : ProxyPair} {x : Side}

/-- The `co_start` of `p2` has ended: its `run` has, or its start was refused. -/
def SecondOver (p : ProxyPair) : Prop :=
  (p.session .b).phase.isOver = true ∨
    (p.session .b).phase = .idle ∧ p.started .b = true ∧ .start ∉ (p.session .b).strand

instance (p : ProxyPair) : Decidable (SecondOver p) := inferInstanceAs (Decidable (_ ∨ _))

theorem secondOver_idle (idle : (p.session .b).phase = .idle) :
    SecondOver p ↔ p.started .b = true ∧ .start ∉ (p.session .b).strand := by
  simp [SecondOver, idle, SessionPhase.isOver]

theorem secondOver_ended {worked : Bool} {e : Option Exception}
    (ended : (p.session .b).phase = .ended worked e) : SecondOver p :=
  .inl (by rw [ended]; rfl)

theorem going_active (active : (p.session .b).phase.active = true) : ¬ SecondOver p := by
  unfold SecondOver
  cases phase : (p.session .b).phase <;> simp_all [SessionPhase.active, SessionPhase.isOver]

structure StartedOnce (p : ProxyPair) : Prop where
  unstarted : p.started .b = false →
    (p.session .b).phase = .idle ∧ .start ∉ (p.session .b).strand
  once : (p.session .b).strand.count .start ≤ 1

theorem secondOver_congr (phase : (q.session .b).phase = (p.session .b).phase)
    (started : q.started .b = p.started .b)
    (start : .start ∈ (q.session .b).strand ↔ .start ∈ (p.session .b).strand) :
    SecondOver q ↔ SecondOver p := by
  unfold SecondOver
  rw [phase, started, start]

theorem StartedOnce.runHead (once : StartedOnce p) (ran : p.runHead x = some q) : StartedOnce q := by
  obtain ⟨h, rest, sent, head, executed, other, unsent, started, _⟩ := runHead_spec ran
  cases x with
  | a =>
    change q.session .b = { p.session .b with strand := (p.session .b).strand ++ sent } at other
    refine ⟨fun fresh => ?_, ?_⟩
    · rw [started] at fresh
      rw [other]
      exact ⟨(once.unstarted fresh).1, by simpa [unsent] using (once.unstarted fresh).2⟩
    · rw [other, List.count_append, List.count_eq_zero_of_not_mem unsent]
      exact once.once
  | b =>
    have fewer : (q.session .b).strand.count .start ≤ (p.session .b).strand.count .start := by
      have tail : rest.count .start ≤ (p.session .b).strand.count .start := by
        rw [head]
        exact List.count_le_count_cons
      rcases executed.strand with same | more
      · rw [same]
        exact tail
      · rw [more, List.count_append]
        exact tail
    refine ⟨fun fresh => ?_, Nat.le_trans fewer once.once⟩
    rw [started] at fresh
    obtain ⟨idle, unqueued⟩ := once.unstarted fresh
    have none_left : .start ∉ (q.session .b).strand := by
      rw [← List.count_eq_zero] at unqueued ⊢
      omega
    refine ⟨?_, none_left⟩
    rcases executed.phase with same | ⟨rfl, _⟩ | ⟨active, _⟩
    · exact same.trans idle
    · exact absurd (head ▸ List.mem_cons_self) unqueued
    · simp [idle, SessionPhase.active] at active

theorem secondOver_first (ran : p.runHead .a = some q) : SecondOver q ↔ SecondOver p := by
  obtain ⟨h, rest, sent, _, _, other, unsent, started, _⟩ := runHead_spec ran
  change q.session .b = { p.session .b with strand := (p.session .b).strand ++ sent } at other
  refine secondOver_congr ?_ (congrFun started .b) ?_
  · rw [other]
  · rw [other]
    simp [unsent]

theorem StartedOnce.post (once : StartedOnce p) (x : Side) {h : SessionHandler} (other : h ≠ .start) :
    StartedOnce (p.post x h) := by
  unfold ProxyPair.post setSession
  cases x with
  | a => exact ⟨by simpa using once.unstarted, by simpa using once.once⟩
  | b =>
    refine ⟨fun fresh => ?_, ?_⟩
    · simpa [ProxyDataSession.post, Ne.symm other] using once.unstarted fresh
    · simpa [ProxyDataSession.post, List.count_singleton, other] using once.once

theorem secondOver_post (x : Side) {h : SessionHandler} (other : h ≠ .start) :
    SecondOver (p.post x h) ↔ SecondOver p := by
  unfold ProxyPair.post setSession
  cases x with
  | a => exact secondOver_congr (by simp) rfl (by simp)
  | b =>
    refine secondOver_congr ?_ rfl ?_
    · simp [ProxyDataSession.post]
    · simp [ProxyDataSession.post, Ne.symm other]

/-- A stop of `p1` has been executed or is on its way, or its `run` is over. -/
def Asked (p : ProxyPair) : Prop := (p.session .a).Doomed ∨ .stop ∈ (p.session .b).strand

instance (p : ProxyPair) : Decidable (Asked p) := inferInstanceAs (Decidable (_ ∨ _))

theorem doomed_lost (reached : machine.Reachable p) (started : p.started x = true)
    (lost : p.alive x = false) : (p.session x).Doomed := by
  simp only [alive, Bool.or_eq_false_iff, Bool.not_eq_false', List.isEmpty_iff] at lost
  obtain ⟨⟨⟨_, drained⟩, still⟩, _⟩ := lost
  have begun := begun reached x started
  have placed := ((pairOk reached).sessions x).placed
  unfold Placed at placed
  cases phase : (p.session x).phase with
  | idle =>
    rw [phase] at placed
    rcases placed.1 with fresh | stopped
    · have queued := begun phase fresh
      simp [drained] at queued
    · exact .inr (.inl stopped)
  | preparing | reading | writing => simp [phase, SessionPhase.active] at still
  | ended worked e =>
    rw [phase] at placed
    exact placed.elim .inl fun stopped => .inr (.inl stopped)

theorem told_alone (reached : machine.Reachable p) (told : (p.session x).otherDone = true) :
    (p.session x.other).phase.working = false := by
  have settled := settled reached
  cases gone : (p.session x.other).phase.finished with
  | true =>
    cases phase : (p.session x.other).phase <;> simp_all [SessionPhase.finished, SessionPhase.working]
  | false =>
    have untold : (p.session x).otherDone = false := (settled.inbox_empty (x := x) gone).2
    simp [told] at untold

def StopsFirst (p : ProxyPair) : Prop :=
  (p.session .b).task.state = .stopped → (p.session .a).Doomed

theorem stopsFirst_runHead (reached : machine.Reachable p) (first : p.started .a = true)
    (kept : StopsFirst p) (ran : p.runHead x = some q) : StopsFirst q := by
  obtain ⟨h, rest, o, head, output, execution, own, other, _⟩ := runHead_output ran
  intro stopped
  cases x with
  | a =>
    change q.session .b = { p.session .b with strand := (p.session .b).strand ++ o.toOther } at other
    rw [other] at stopped
    exact (kept stopped).executed head execution
  | b =>
    change q.session .a = { p.session .a with strand := (p.session .a).strand ++ o.toOther } at other
    change o = ({ p.session .b with strand := rest } : ProxyDataSession).execute (p.alive .a) h
      at output
    rw [other]
    by_cases before : (p.session .b).task.state = .stopped
    · exact (kept before).post o.toOther
    · have stop : h = .stop := by
        by_contra otherwise
        exact execution.unstopped otherwise before stopped
      cases alive : p.alive .a with
      | false => exact (doomed_lost reached first alive).post o.toOther
      | true =>
        have sends : .stop ∈ o.toOther := by
          rw [output, stop, alive]
          simp [execute, stopBody, CoroutineTask.stopEntry, before]
        exact .inr (.inr (.inl (List.mem_append_right _ sends)))

theorem asked_runHead (kept : StopsFirst q) (asked : Asked p) (ran : p.runHead x = some q) :
    Asked q := by
  obtain ⟨h, rest, sent, head, executed, other, _⟩ := runHead_spec ran
  cases x with
  | a =>
    change q.session .b = { p.session .b with strand := (p.session .b).strand ++ sent } at other
    refine asked.imp (fun doomed => doomed.executed head executed) fun stop => ?_
    rw [other]
    exact List.mem_append_left _ stop
  | b =>
    change q.session .a = { p.session .a with strand := (p.session .a).strand ++ sent } at other
    rcases asked with doomed | stop
    · left
      rw [other]
      exact doomed.post sent
    · rw [head] at stop
      rcases List.mem_cons.mp stop with rfl | later
      · exact .inl (kept executed.halted)
      · exact .inr (executed.keeps later)

theorem asked_over (reached : machine.Reachable p) (first : p.started .a = true)
    (stops : StopsFirst p) (kept : StopsFirst q) (going : ¬ SecondOver p) (past : SecondOver q)
    (working : (p.session .a).phase.working = true) (ran : p.runHead .b = some q)
    (failure : ∀ e rest, (p.session .b).strand = .resume (some e) :: rest → e.canceled = false →
      (p.session .b).phase ≠ .reading → Asked p) : Asked q := by
  obtain ⟨h, rest, o, head, output, execution, own, other, started, _⟩ := runHead_output ran
  change o = ({ p.session .b with strand := rest } : ProxyDataSession).execute (p.alive .a) h
    at output
  change q.session .a = { p.session .a with strand := (p.session .a).strand ++ o.toOther } at other
  have placed := ((pairOk reached).sessions .b).placed
  have doomed (before : (p.session .a).Doomed) : Asked q := by
    left
    rw [other]
    exact before.post o.toOther
  have inactive : (q.session .b).phase.active = false := by
    by_contra active
    exact going_active (by simpa using active) past
  cases active : (p.session .b).phase.active with
  | false =>
    -- a start of `p2` that is refused
    have still : (q.session .b).phase = (p.session .b).phase := by
      rcases execution.phase with same | ⟨_, _, preparing⟩ | ⟨was, _⟩
      · exact same
      · simp [preparing, SessionPhase.active] at inactive
      · exact absurd (active.symm.trans was) (by decide)
    cases phase : (p.session .b).phase with
    | ended worked e => exact absurd (secondOver_ended phase) going
    | preparing | reading | writing => simp [phase, SessionPhase.active] at active
    | idle =>
      obtain ⟨begun, unqueued⟩ := (secondOver_idle (still.trans phase)).mp past
      rw [execution.start_mem] at unqueued
      rw [secondOver_idle phase, head] at going
      have first : h = .start := by
        by_contra otherwise
        exact going ⟨started ▸ begun, by simpa [Ne.symm otherwise] using unqueued⟩
      subst first
      unfold Placed at placed
      rw [phase] at placed
      refine doomed (stops (placed.1.resolve_left fun fresh => ?_))
      have entered := execution.entering fresh
      simp [entered, SessionPhase.active] at inactive
  | true =>
    cases h with
    | start | stop | emit | otherDone _ =>
      rcases execution.unresumed rfl with same | preparing
      · exact absurd (inactive.symm.trans ((congrArg _ same).trans active)) (by decide)
      · simp [preparing, SessionPhase.active] at inactive
    | resume result =>
      rw [own, output] at inactive
      rcases resume_asks (s := { p.session .b with strand := rest }) active placed result inactive with
        stop | read | told | stopped | lost | ⟨e, rfl, other_, writing⟩
      · right
        rw [own, output]
        exact stop
      · left
        rw [other, output]
        exact .inr (.inr (.inr (List.mem_append_right _ read)))
      · have alone := told_alone reached told
        exact absurd (alone.symm.trans working) (by decide)
      · exact doomed (stops stopped)
      · exact doomed (doomed_lost reached first lost)
      · exact asked_runHead kept (failure e rest head other_ writing) ran

theorem begins_working (idle : (p.session .a).phase.working = false)
    (working : (q.session .a).phase.working = true) (ran : p.runHead .a = some q) :
    ∃ rest, (p.session .a).strand = .resume none :: rest ∧ (p.session .a).phase = .preparing ∧
      (p.session .a).cancelled = false ∧ p.alive .b = true ∧
      (p.session .a).loopEnds none = false := by
  obtain ⟨h, rest, o, head, output, execution, own, _⟩ := runHead_output ran
  change o = ({ p.session .a with strand := rest } : ProxyDataSession).execute (p.alive .b) h
    at output
  cases h with
  | start | stop | emit | otherDone _ =>
    rcases execution.unresumed rfl with same | preparing
    · exact absurd (idle.symm.trans ((congrArg _ same.symm).trans working)) (by decide)
    · simp [preparing, SessionPhase.working] at working
  | resume failure =>
    cases active : (p.session .a).phase.active with
    | false =>
      have same : (q.session .a).phase = (p.session .a).phase := by
        rcases execution.phase with same | ⟨started, _⟩ | ⟨was, _⟩
        · exact same
        · cases started
        · exact absurd (active.symm.trans was) (by decide)
      exact absurd (idle.symm.trans ((congrArg _ same.symm).trans working)) (by decide)
    | true =>
      have cases := resume_cases (x := { p.session .a with strand := rest }) active (p.alive .b) failure
      rw [own, output] at working
      revert cases working
      simp only [execute]
      generalize ({ p.session .a with strand := rest } : ProxyDataSession).resume _ failure = o
      intro working cases
      cases cases with
      | reads before running untold live =>
        rcases before with ⟨preparing, lives⟩ | writing
        · have preparing : (p.session .a).phase = .preparing := preparing
          refine ⟨rest, head, preparing, live, lives, ?_⟩
          simp only [loopEnds, preparing]
          simpa using ⟨running, untold⟩
        · have writing : (p.session .a).phase = .writing := writing
          simp [writing, SessionPhase.working] at idle
      | writes before =>
        have reading : (p.session .a).phase = .reading := before
        simp [reading, SessionPhase.working] at idle
      | unprepared | preparedLate | alone | loopOver | readCancelled | writeCancelled | readFails
        | writeFails => cases working

theorem StopsFirst.post (kept : StopsFirst p) (x : Side) (h : SessionHandler) :
    StopsFirst (p.post x h) := by
  intro stopped
  rw [post_session] at stopped ⊢
  cases x with
  | a => exact (kept stopped).post [h]
  | b => exact kept stopped

theorem Asked.post (asked : Asked p) (x : Side) (h : SessionHandler) : Asked (p.post x h) := by
  unfold Asked
  rw [post_session, post_session]
  cases x with
  | a => exact asked.imp (fun doomed => doomed.post [h]) id
  | b => exact asked.imp id (List.mem_append_left _)

end ProxyPair

end BoostBase
