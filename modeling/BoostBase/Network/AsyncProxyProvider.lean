import BoostBase.Coroutine.AwaitableEvent

namespace BoostBase

open Asio Intrusive Transition

/-- `AsyncProxyProvider::TRequest`. A null `TSession` is `none`. -/
structure TRequest (σ : Type) where
  first : Option σ
  second : Option σ
  event : AwaitableEvent Unit

/-- Where the coroutine of one `get` stands; its frame owns the request between
    `push_back` and its end. -/
inductive GetPhase (σ : Type)
  | spawned
  | starting (request : TRequest σ)
  | waiting (request : TRequest σ)
  | returned (result : σ)
  | threw (e : Exception)

namespace GetPhase

variable {σ : Type}

def request : GetPhase σ → Option (TRequest σ)
  | .starting request | .waiting request => some request
  | .spawned | .returned _ | .threw _ => none

def withRequest (phase : GetPhase σ) (request : TRequest σ) : GetPhase σ :=
  match phase with
  | .starting _ => .starting request
  | .waiting _ => .waiting request
  | other => other

def ended : GetPhase σ → Bool
  | .returned _ | .threw _ => true
  | .spawned | .starting _ | .waiting _ => false

end GetPhase

abbrev StartResult := Except Exception Bool

/-- A call of `get`. `immediate` is the answer of a `startAsyncRequest` that does
    not suspend; `started` remembers the answer the body has seen. -/
structure GetFrame (σ : Type) where
  first : Option σ
  immediate : Option StartResult
  phase : GetPhase σ
  cancelled : Bool
  started : Option StartResult

inductive ProviderHandler (γ ρ σ : Type)
  | get (g : γ)
  | started (g : γ) (result : StartResult)
  | resume (g : γ) (ec : ErrorCode)
  | emit (g : γ)
  | response (r : ρ) (second : Option σ)

structure Match (γ ρ κ σ : Type) where
  get : γ
  response : ρ
  second : Option σ
  sClass : κ

/-- `m_requests`, the frames of the calls and the strand. Calls of `get` are told
    apart by `γ`, calls of `asyncResponse` by `ρ`. The last three fields are history. -/
structure AsyncProxyProvider (γ ρ κ σ : Type) where
  requests : κ → Option (LinkedList γ)
  frames : γ → Option (GetFrame σ)
  strand : List (ProviderHandler γ ρ σ)
  entered : List (γ × κ)
  served : List (Match γ ρ κ σ)
  responses : List ρ

namespace AsyncProxyProvider

variable {γ ρ κ σ : Type} [DecidableEq γ] [DecidableEq κ]

def new : AsyncProxyProvider γ ρ κ σ where
  requests := fun _ => none
  frames := fun _ => none
  strand := []
  entered := []
  served := []
  responses := []

def post (p : AsyncProxyProvider γ ρ κ σ) (handlers : List (ProviderHandler γ ρ σ)) :
    AsyncProxyProvider γ ρ κ σ :=
  { p with strand := p.strand ++ handlers }

def setFrame (p : AsyncProxyProvider γ ρ κ σ) (g : γ) (f : GetFrame σ) :
    AsyncProxyProvider γ ρ κ σ :=
  { p with frames := Function.update p.frames g (some f) }

/-- The resumptions an event posts for the `get` that waits on it. -/
def resumptions (g : γ) (posted : List (AwaitableEvent.Completion Unit)) :
    List (ProviderHandler γ ρ σ) :=
  posted.map fun completion => .resume g completion.2

/-- The frame of `g` unwinds. Destroying the request unlinks it from the list that
    holds it. -/
def finish (p : AsyncProxyProvider γ ρ κ σ) (g : γ) (f : GetFrame σ) (outcome : GetPhase σ) :
    AsyncProxyProvider γ ρ κ σ :=
  { p.setFrame g { f with phase := outcome } with
    requests := fun c => (p.requests c).map (·.unlink g) }

/-- `get` from `co_await startAsyncRequest` on, once that has an answer. A cancelled
    coroutine does not begin the next `co_await`. -/
def afterStart (p : AsyncProxyProvider γ ρ κ σ) (g : γ) (f : GetFrame σ) (request : TRequest σ)
    (result : StartResult) : AsyncProxyProvider γ ρ κ σ :=
  let f := { f with started := some result }
  match result with
  | .error e => p.finish g f (.threw e)
  | .ok false => p.finish g f (.threw (.errorCode .hostUnreachable))
  | .ok true =>
    if f.cancelled then p.finish g f (.threw (.systemError .operationCanceled))
    else
      let posting := request.event.coWait ()
      (p.setFrame g { f with phase := .waiting { request with event := posting.1 } }).post
        (resumptions g posting.2)

/-- `get` up to the call of `startAsyncRequest`. -/
def enqueue (p : AsyncProxyProvider γ ρ κ σ) (g : γ) (f : GetFrame σ) (request : TRequest σ)
    (rClass : κ) : AsyncProxyProvider γ ρ κ σ :=
  let requests := (p.requests rClass).getD .empty
  { p.setFrame g { f with phase := .starting request } with
    requests := Function.update p.requests rClass (some (requests.pushBack g))
    entered := p.entered ++ [(g, rClass)] }

/-- The spawned body of `get`; the first `co_await` of a cancelled coroutine is the
    one that would enter it. -/
def getBody (classify : Option σ → κ) (p : AsyncProxyProvider γ ρ κ σ) (g : γ) (f : GetFrame σ) :
    AsyncProxyProvider γ ρ κ σ :=
  if f.cancelled then p.finish g f (.threw (.systemError .operationCanceled))
  else
    let request : TRequest σ := ⟨f.first, none, .new⟩
    let queued := p.enqueue g f request (classify f.first)
    match f.immediate with
    | none => queued
    | some result => queued.afterStart g { f with phase := .starting request } request result

/-- `get` from the resumption of `co_wait` on. -/
def afterWait (p : AsyncProxyProvider γ ρ κ σ) (g : γ) (f : GetFrame σ) (request : TRequest σ)
    (ec : ErrorCode) : AsyncProxyProvider γ ρ κ σ :=
  if ec ≠ .success then p.finish g f (.threw (.systemError ec))
  else
    match request.second with
    | none => p.finish g f (.threw (.errorCode .hostUnreachable))
    | some result => p.finish g f (.returned result)

/-- The cancellation signal of `g`: the coroutine is marked, and a pending wait is
    cancelled through the slot of its operation. -/
def emit (p : AsyncProxyProvider γ ρ κ σ) (g : γ) (f : GetFrame σ) : AsyncProxyProvider γ ρ κ σ :=
  match f.phase with
  | .waiting request =>
    let posting := request.event.cancel ()
    let f := { f with phase := .waiting { request with event := posting.1 }, cancelled := true }
    (p.setFrame g f).post (resumptions g posting.2)
  | _ => p.setFrame g { f with cancelled := true }

/-- `request.second = second; request.event->set()`. -/
def fulfil (p : AsyncProxyProvider γ ρ κ σ) (g : γ) (f : GetFrame σ) (request : TRequest σ)
    (second : Option σ) : AsyncProxyProvider γ ρ κ σ :=
  let posting := request.event.set
  let f := { f with phase := f.phase.withRequest { request with second, event := posting.1 } }
  (p.setFrame g f).post (resumptions g posting.2)

/-- The handler `asyncResponse` posts. -/
def responseBody (classify : Option σ → κ) (p : AsyncProxyProvider γ ρ κ σ) (r : ρ)
    (second : Option σ) : AsyncProxyProvider γ ρ κ σ :=
  let sClass := classify second
  match (p.requests sClass).bind LinkedList.popFront with
  | none => p
  | some (g, rest) =>
    let popped := { p with
      requests := Function.update p.requests sClass (some rest)
      served := p.served ++ [⟨g, r, second, sClass⟩] }
    match p.frames g with
    | none => popped
    | some f =>
      match f.phase.request with
      | none => popped
      | some request => popped.fulfil g f request second

/-- Running one handler of the strand. A resumption finds its coroutine suspended at
    the point that posted it. -/
def execute (classify : Option σ → κ) (p : AsyncProxyProvider γ ρ κ σ) :
    ProviderHandler γ ρ σ → AsyncProxyProvider γ ρ κ σ
  | .get g =>
    match p.frames g with
    | some f => match f.phase with
      | .spawned => p.getBody classify g f
      | _ => p
    | none => p
  | .started g result =>
    match p.frames g with
    | some f => match f.phase with
      | .starting request => p.afterStart g f request result
      | _ => p
    | none => p
  | .resume g ec =>
    match p.frames g with
    | some f => match f.phase with
      | .waiting request => p.afterWait g f request ec
      | _ => p
    | none => p
  | .emit g =>
    match p.frames g with
    | some f => p.emit g f
    | none => p
  | .response r second => p.responseBody classify r second

inductive Action (γ ρ σ : Type)
  | get (g : γ) (first : Option σ) (immediate : Option StartResult)
  | asyncResponse (r : ρ) (second : Option σ)
  | startDone (g : γ) (result : StartResult)
  | cancel (g : γ)
  | run

/-- `startAsyncRequest` of `g` is suspended and has not completed. -/
def startPending (p : AsyncProxyProvider γ ρ κ σ) (g : γ) : Bool :=
  (match p.frames g with
    | some f => match f.phase with
      | .starting _ => true
      | _ => false
    | none => false) &&
  p.strand.all fun
    | .started h _ => h ≠ g
    | _ => true

variable [DecidableEq ρ]

def provider (classify : Option σ → κ) :
    Machine (AsyncProxyProvider γ ρ κ σ) (Action γ ρ σ) where
  initial := new
  next p
    | .get g first immediate =>
      match p.frames g with
      | some _ => none
      | none => some ((p.setFrame g ⟨first, immediate, .spawned, false, none⟩).post [.get g])
    | .asyncResponse r second =>
      if r ∈ p.responses then none
      else some { p.post [.response r second] with responses := p.responses ++ [r] }
    | .startDone g result => if p.startPending g then some (p.post [.started g result]) else none
    | .cancel g => some (p.post [.emit g])
    | .run =>
      match p.strand with
      | [] => none
      | handler :: rest => some ({ p with strand := rest }.execute classify handler)

end AsyncProxyProvider

end BoostBase
