import BoostBase.Misc.GenericFactory
import BoostBase.Transition.Harvest

namespace BoostBase

open Transition

/-- `boost::json::value`; the members of an object have distinct keys. -/
inductive JsonValue
  | null
  | bool (b : Bool)
  | int64 (n : BitVec 64)
  | uint64 (n : BitVec 64)
  | double (bits : BitVec 64)
  | string (s : String)
  | array (items : List JsonValue)
  | object (members : List (String × JsonValue))

abbrev JsonObject := List (String × JsonValue)

namespace JsonValue

def asObject : JsonValue → Except Thrown JsonObject
  | .object members => .ok members
  | _ => .error .notObject

def asBool : JsonValue → Except Thrown Bool
  | .bool b => .ok b
  | _ => .error .notBool

end JsonValue

namespace JsonObject

def contains (o : JsonObject) (key : String) : Bool := (o.lookup key).isSome

def at_ (o : JsonObject) (key : String) : Except Thrown JsonValue :=
  match o.lookup key with
  | some v => .ok v
  | none => .error .keyNotFound

end JsonObject

def ConfigItem.isEnabled (o : JsonObject) : Except Thrown Bool :=
  if JsonObject.contains o "enabled" then do
    let v ← JsonObject.at_ o "enabled"
    v.asBool
  else .ok true

/-- The signatures of the creators that were registered: `const object&`, or any other. -/
inductive ItemSignature
  | object
  | other
  deriving DecidableEq

def ItemSignature.Args : ItemSignature → Type
  | .object => JsonObject
  | .other => Unit

/-- The factory, and `init` of the items it creates, `ι`. -/
structure ArrayParser (ι : Type) extends GenericFactory ItemSignature ItemSignature.Args ι where
  init : ι → JsonObject → Except Thrown (Bool × ι)

structure LogEntry where
  text : String
  e : Thrown
  deriving DecidableEq, Repr

structure ParseArray (ι : Type) where
  outcome : Except Thrown Bool
  result : List ι
  log : List LogEntry

namespace ArrayParser

variable {ι : Type} (p : ArrayParser ι)

def create (obj : JsonObject) : Except Thrown (Option ι) :=
  p.toGenericFactory.create "ConfigItem" ItemSignature.object obj

/-- The body of the `try`. -/
def parseItems : List JsonValue → List ι → Except Thrown Bool × List ι
  | [], result => (.ok true, result)
  | item :: rest, result =>
    match item.asObject with
    | .error e => (.error e, result)
    | .ok obj =>
      match ConfigItem.isEnabled obj with
      | .error e => (.error e, result)
      | .ok false => parseItems rest result
      | .ok true =>
        match p.create obj with
        | .error e => (.error e, result)
        | .ok none => parseItems rest result
        | .ok (some i) =>
          match p.init i obj with
          | .error e => (.error e, result)
          | .ok (false, _) => (.ok false, result)
          | .ok (true, i) => parseItems rest (result ++ [i])

def parseArray (input : List JsonValue) (result : List ι) : ParseArray ι :=
  match p.parseItems input result with
  | (.ok returned, result) => ⟨.ok returned, result, []⟩
  | (.error e, result) =>
    if e.isStdException then ⟨.ok false, result, [⟨"Config array parse error: %1%", e⟩]⟩
    else ⟨.error e, result, []⟩

inductive Enabled
  | on
  | off
  | notBool
  deriving DecidableEq

def enabled (obj : JsonObject) : Enabled :=
  match obj.lookup "enabled" with
  | none | some (.bool true) => .on
  | some (.bool false) => .off
  | some _ => .notBool

inductive Fails : JsonValue → Prop
  | notObject {v : JsonValue} (other : ∀ obj, v ≠ .object obj) : Fails v
  | notBool {obj : JsonObject} (enabled_ : enabled obj = .notBool) : Fails (.object obj)
  | creation {obj : JsonObject} {e : Thrown} (enabled_ : enabled obj = .on)
      (throws : p.create obj = .error e) : Fails (.object obj)
  | initThrows {obj : JsonObject} {i : ι} {e : Thrown} (enabled_ : enabled obj = .on)
      (created : p.create obj = .ok (some i)) (throws : p.init i obj = .error e) : Fails (.object obj)
  | initFalse {obj : JsonObject} {i i' : ι} (enabled_ : enabled obj = .on)
      (created : p.create obj = .ok (some i)) (refuses : p.init i obj = .ok (false, i')) :
      Fails (.object obj)

def item : JsonValue → Option ι
  | .object obj =>
    if enabled obj = .on then
      match p.create obj with
      | .ok (some i) =>
        match p.init i obj with
        | .ok (_, i) => some i
        | .error _ => none
      | .ok none | .error _ => none
    else none
  | _ => none

def disabled : JsonValue → Bool
  | .object obj => enabled obj = .off
  | _ => false

/-- What one element comes to; `stop none` is an `init` that returned false. -/
def judge (v : JsonValue) : Verdict ι (Option Thrown) :=
  match v.asObject with
  | .error e => .stop (some e)
  | .ok obj =>
    match enabled obj with
    | .notBool => .stop (some .notBool)
    | .off => .skip
    | .on =>
      match p.create obj with
      | .error e => .stop (some e)
      | .ok none => .skip
      | .ok (some i) =>
        match p.init i obj with
        | .error e => .stop (some e)
        | .ok (false, _) => .stop none
        | .ok (true, i) => .take i

def ending : Option (Option Thrown) → Except Thrown Bool
  | none => .ok true
  | some none => .ok false
  | some (some e) => .error e

variable {p} {v : JsonValue} {obj : JsonObject} {input rest : List JsonValue} {result : List ι}

theorem isEnabled_eq (obj : JsonObject) : ConfigItem.isEnabled obj =
    match enabled obj with
    | .on => .ok true
    | .off => .ok false
    | .notBool => .error .notBool := by
  unfold ConfigItem.isEnabled JsonObject.contains JsonObject.at_ enabled
  cases member : obj.lookup "enabled" with
  | none => rfl
  | some v =>
    cases v with
    | bool b => cases b <;> rfl
    | _ => rfl

theorem parseItems_eq (input : List JsonValue) (result : List ι) : p.parseItems input result =
    (ending (harvest p.judge input).2, result ++ (harvest p.judge input).1) := by
  induction input generalizing result with
  | nil => simp [parseItems, harvest, ending]
  | cons v rest ih =>
    rw [parseItems, harvest, judge]
    cases v.asObject with
    | error e => simp [ending]
    | ok obj =>
      simp only [isEnabled_eq]
      cases enabled obj with
      | notBool => simp [ending]
      | off => exact ih result
      | on =>
        simp only
        cases p.create obj with
        | error e => simp [ending]
        | ok created =>
          cases created with
          | none => exact ih result
          | some i =>
            simp only
            cases p.init i obj with
            | error e => simp [ending]
            | ok done =>
              obtain ⟨_ | _, i'⟩ := done
              · simp [ending]
              · simp [ih]

/-- An element stops the parsing and fails, is passed over, or gives its item. -/
inductive Judged (p : ArrayParser ι) (v : JsonValue) : Prop
  | fails (e : Option Thrown) (verdict : p.judge v = .stop e) (fails : p.Fails v)
  | skips (verdict : p.judge v = .skip) (passes : ¬ p.Fails v) (none_ : p.item v = none)
  | takes (i : ι) (verdict : p.judge v = .take i) (passes : ¬ p.Fails v) (some_ : p.item v = some i)

theorem judged_object (obj : JsonObject) : Judged p (.object obj) := by
  cases reads : enabled obj with
  | notBool =>
    exact .fails (some .notBool) (by simp [judge, JsonValue.asObject, reads]) (.notBool reads)
  | off =>
    refine .skips (by simp [judge, JsonValue.asObject, reads]) (fun fails => ?_) (by simp [item, reads])
    cases fails <;> simp_all
  | on =>
    cases created : p.create obj with
    | error e =>
      exact .fails (some e) (by simp [judge, JsonValue.asObject, reads, created])
        (.creation reads created)
    | ok i =>
      cases i with
      | none =>
        refine .skips (by simp [judge, JsonValue.asObject, reads, created]) (fun fails => ?_)
          (by simp [item, reads, created])
        cases fails <;> simp_all
      | some i =>
        cases done : p.init i obj with
        | error e =>
          exact .fails (some e) (by simp [judge, JsonValue.asObject, reads, created, done])
            (.initThrows reads created done)
        | ok end_ =>
          obtain ⟨_ | _, i'⟩ := end_
          · exact .fails none (by simp [judge, JsonValue.asObject, reads, created, done])
              (.initFalse reads created done)
          · refine .takes i' (by simp [judge, JsonValue.asObject, reads, created, done])
              (fun fails => ?_) (by simp [item, reads, created, done])
            cases fails <;> simp_all

theorem judged (v : JsonValue) : Judged p v := by
  cases v with
  | object obj => exact judged_object obj
  | _ => exact .fails (some .notObject) rfl (.notObject (by simp))

theorem stops_iff (v : JsonValue) : (p.judge v).stops = true ↔ p.Fails v := by
  rcases judged (p := p) v with ⟨e, verdict, fails⟩ | ⟨verdict, passes, _⟩ | ⟨i, verdict, passes, _⟩
  · simp [verdict, Verdict.stops, fails]
  · simp [verdict, Verdict.stops, passes]
  · simp [verdict, Verdict.stops, passes]

instance Fails.decidable : DecidablePred p.Fails := fun v => decidable_of_iff _ (stops_iff v)

theorem taken_eq (passes : ¬ p.Fails v) : (p.judge v).taken = p.item v := by
  rcases judged (p := p) v with ⟨e, _, fails⟩ | ⟨verdict, _, none_⟩ | ⟨i, verdict, _, some_⟩
  · exact absurd fails passes
  · rw [verdict, none_, Verdict.taken]
  · rw [verdict, some_, Verdict.taken]

theorem judge_disabled (off : disabled v = true) : p.judge v = .skip := by
  cases v with
  | object obj => simp [judge, JsonValue.asObject, of_decide_eq_true off]
  | _ => simp [disabled] at off

theorem parseArray_result : (p.parseArray input result).result =
    result ++ (harvest p.judge input).1 := by
  rw [parseArray, parseItems_eq]
  cases ending (harvest p.judge input).2 with
  | ok returned => rfl
  | error e =>
    simp only
    split <;> rfl

theorem parseArray_true : (p.parseArray input result).outcome = .ok true ↔
    (harvest p.judge input).2 = none := by
  rw [parseArray, parseItems_eq]
  cases (harvest p.judge input).2 with
  | none => simp [ending]
  | some stop =>
    cases stop with
    | none => simp [ending]
    | some e =>
      simp only [ending]
      split <;> simp

theorem parseArray_congr {input' : List JsonValue} {result' : List ι}
    (ended : (harvest p.judge input).2 = (harvest p.judge input').2)
    (taken : result ++ (harvest p.judge input).1 = result' ++ (harvest p.judge input').1) :
    p.parseArray input result = p.parseArray input' result' := by
  rw [parseArray, parseArray, parseItems_eq, parseItems_eq, ended, taken]

theorem parseArray_append (rest : List JsonValue)
    (through : (p.parseArray input result).outcome = .ok true) :
    p.parseArray (input ++ rest) result = p.parseArray rest (p.parseArray input result).result := by
  have joined := harvest_append rest (parseArray_true.mp through)
  rw [parseArray_result]
  apply parseArray_congr
  · rw [joined]
  · rw [joined, List.append_assoc]

theorem parseArray_append_stopped (rest : List JsonValue)
    (stopped : (p.parseArray input result).outcome ≠ .ok true) :
    p.parseArray (input ++ rest) result = p.parseArray input result := by
  have same := harvest_append_stopped rest (mt parseArray_true.mpr stopped)
  apply parseArray_congr <;> rw [same]

theorem harvest_items (input : List JsonValue) : (harvest p.judge input).1 =
    (input.takeWhile fun v => ¬ p.Fails v).filterMap p.item := by
  have same : (fun v => !(p.judge v).stops) = fun v => decide (¬ p.Fails v) := by
    funext v
    cases stops : (p.judge v).stops <;> simp [← stops_iff, stops]
  rw [harvest_taken, same]
  refine List.filterMap_congr fun v member => taken_eq ?_
  simpa using List.mem_takeWhile_imp member

/-- Parsing goes from left to right, stops at the first element that fails and passes over the
    disabled ones. -/
theorem parseArray_harvests (p : ArrayParser ι) (input : List JsonValue) (result : List ι) :
    ((p.parseArray input result).outcome = .ok true ↔ ∀ v ∈ input, ¬ p.Fails v) ∧
    (p.parseArray input result).result =
      result ++ (input.takeWhile fun v => ¬ p.Fails v).filterMap p.item ∧
    (∀ rest, p.parseArray (input ++ rest) result =
      if (p.parseArray input result).outcome = .ok true then
        p.parseArray rest (p.parseArray input result).result
      else p.parseArray input result) ∧
    p.parseArray (input.filter fun v => !disabled v) result = p.parseArray input result := by
  refine ⟨?_, ?_, fun rest => ?_, ?_⟩
  · rw [parseArray_true, harvest_through]
    simp only [← stops_iff, Bool.not_eq_true]
  · rw [parseArray_result, harvest_items]
  · split
    · exact parseArray_append rest ‹_›
    · exact parseArray_append_stopped rest ‹_›
  · have same : harvest p.judge (input.filter fun v => !disabled v) = harvest p.judge input :=
      harvest_filter fun v off => judge_disabled (by simpa using off)
    apply parseArray_congr <;> rw [same]

end ArrayParser

end BoostBase
