import BoostBase.Config.ArrayParser

namespace BoostBase

open Transition

namespace JsonValue

/-- `value::at`, for which the value has to be an object. -/
def at_ (v : JsonValue) (key : String) : Except Thrown JsonValue := do
  let o ← v.asObject
  JsonObject.at_ o key

def asArray : JsonValue → Except Thrown (List JsonValue)
  | .array items => .ok items
  | _ => .error (.standard "value is not an array")

end JsonValue

structure Config (ι : Type) extends ArrayParser ι where
  key : String

namespace Config

variable {ι : Type}

def new (parser : ArrayParser ι) : Config ι := ⟨parser, "config"⟩

def setKey (c : Config ι) (key : String) : Config ι := { c with key := key }

abbrev JsonParse := List UInt8 → Except Thrown JsonValue

/-- What `readConfig` hands to `parseArray`. A file that does not open reads as an empty one. -/
def items (c : Config ι) (parse : JsonParse) (file : Option (List UInt8)) :
    Except Thrown (List JsonValue) := do
  let parsed_data ← parse (file.getD [])
  let items ← parsed_data.at_ c.key
  items.asArray

def readConfig (c : Config ι) (parse : JsonParse) (file : Option (List UInt8)) (result : List ι) :
    ParseArray ι :=
  match c.items parse file with
  | .ok items =>
    -- what comes through the handler of `parseArray` comes through this one too
    c.parseArray items result
  | .error e =>
    if e.isStdException then ⟨.ok false, result, [⟨"Config parse error: %1%", e⟩]⟩
    else ⟨.error e, result, []⟩

variable {c : Config ι} {parse : JsonParse} {file : Option (List UInt8)} {result : List ι}

theorem at_ok {v w : JsonValue} {key : String} :
    v.at_ key = .ok w ↔ ∃ o, v = .object o ∧ o.lookup key = some w := by
  cases v with
  | object o =>
    simp only [JsonValue.at_, JsonValue.asObject, JsonObject.at_, bind, Except.bind]
    cases found : o.lookup key <;> simp [found]
  | _ => simp [JsonValue.at_, JsonValue.asObject, bind, Except.bind]

theorem asArray_ok {v : JsonValue} {elements : List JsonValue} :
    v.asArray = .ok elements ↔ v = .array elements := by
  cases v <;> simp [JsonValue.asArray]

theorem items_ok {elements : List JsonValue} : c.items parse file = .ok elements ↔
    ∃ o, parse (file.getD []) = .ok (.object o) ∧ o.lookup c.key = some (.array elements) := by
  unfold items
  cases parsed : parse (file.getD []) with
  | error e => simp [bind, Except.bind]
  | ok v =>
    simp only [bind, Except.bind]
    cases found : v.at_ c.key with
    | error e =>
      refine iff_of_false (fun same => by cases same) ?_
      rintro ⟨o, same, lookup⟩
      cases same
      rw [at_ok.mpr ⟨o, rfl, lookup⟩] at found
      cases found
    | ok w =>
      obtain ⟨o, rfl, lookup⟩ := at_ok.mp found
      refine asArray_ok.trans ⟨?_, ?_⟩
      · rintro rfl
        exact ⟨o, rfl, lookup⟩
      · rintro ⟨o', same, lookup'⟩
        cases same
        exact Option.some.inj (lookup.symm.trans lookup')

structure Reported (p : ParseArray ι) (text : String) : Prop where
  returned : p.outcome = .ok false
  entry : ∃ e, e.isStdException = true ∧ p.log = [⟨text, e⟩]

theorem parseArray_log (p : ArrayParser ι) (input : List JsonValue) (result : List ι) :
    ((p.parseArray input result).log ≠ [] →
      Reported (p.parseArray input result) "Config array parse error: %1%") ∧
    ∀ e, (p.parseArray input result).outcome = .error e → e.isStdException = false := by
  unfold ArrayParser.parseArray
  cases p.parseItems input result with
  | mk outcome result =>
    cases outcome with
    | ok returned => exact ⟨fun some => (some rfl).elim, fun e same => by cases same⟩
    | error e =>
      dsimp only
      split
      · rename_i standard
        exact ⟨fun _ => ⟨rfl, e, standard, rfl⟩, fun e same => by cases same⟩
      · rename_i foreign
        refine ⟨fun some => (some rfl).elim, fun e' same => ?_⟩
        cases same
        simpa using foreign

/-- A config reads through if and only if the file is an object with an array under the key and no
    element of the array fails. The items of the elements before the first that fails are added in
    any case; at most one error is reported, and only what is no `std::exception` is thrown. -/
theorem readConfig_reads (c : Config ι) (parse : JsonParse) (file : Option (List UInt8))
    (result : List ι) :
    ((c.readConfig parse file result).outcome = .ok true ↔ ∃ o elements,
      parse (file.getD []) = .ok (.object o) ∧ o.lookup c.key = some (.array elements) ∧
        ∀ v ∈ elements, ¬ c.Fails v) ∧
    (∀ o elements, parse (file.getD []) = .ok (.object o) → o.lookup c.key = some (.array elements) →
      (c.readConfig parse file result).result =
        result ++ (elements.takeWhile fun v => ¬ c.Fails v).filterMap c.item) ∧
    ((c.readConfig parse file result).log ≠ [] →
      Reported (c.readConfig parse file result) "Config parse error: %1%" ∨
        Reported (c.readConfig parse file result) "Config array parse error: %1%") ∧
    ∀ e, (c.readConfig parse file result).outcome = .error e → e.isStdException = false := by
  unfold readConfig
  cases read : c.items parse file with
  | ok elements =>
    obtain ⟨o, parsed, lookup⟩ := items_ok.mp read
    obtain ⟨reported, foreign⟩ := parseArray_log c.toArrayParser elements result
    have only (o' elements' : _) (parsed' : parse (file.getD []) = .ok (.object o'))
        (lookup' : o'.lookup c.key = some (.array elements')) : elements' = elements := by
      have same := read.symm.trans (items_ok.mpr ⟨o', parsed', lookup'⟩)
      cases same
      rfl
    refine ⟨?_, ?_, fun some => .inr (reported some), foreign⟩
    · rw [ArrayParser.parseArray_true, harvest_through]
      simp only [← ArrayParser.stops_iff, Bool.not_eq_true]
      constructor
      · exact fun through => ⟨o, elements, parsed, lookup, through⟩
      · rintro ⟨o', elements', parsed', lookup', through⟩
        rwa [only o' elements' parsed' lookup'] at through
    · intro o' elements' parsed' lookup'
      rw [only o' elements' parsed' lookup', ArrayParser.parseArray_result, ArrayParser.harvest_items]
  | error e =>
    have unread (o elements : _) (parsed : parse (file.getD []) = .ok (.object o))
        (lookup : o.lookup c.key = some (.array elements)) : False := by
      rw [items_ok.mpr ⟨o, parsed, lookup⟩] at read
      cases read
    have unread' : ¬ ∃ o elements, parse (file.getD []) = .ok (.object o) ∧
        o.lookup c.key = some (.array elements) ∧ ∀ v ∈ elements, ¬ c.Fails v :=
      fun ⟨o, elements, parsed, lookup, _⟩ => unread o elements parsed lookup
    dsimp only
    split
    · rename_i standard
      refine ⟨iff_of_false (fun same => by cases same) unread',
        fun o elements parsed lookup => (unread o elements parsed lookup).elim,
        fun _ => .inl ⟨rfl, e, standard, rfl⟩, fun e same => by cases same⟩
    · rename_i foreign
      refine ⟨iff_of_false (fun same => by cases same) unread',
        fun o elements parsed lookup => (unread o elements parsed lookup).elim,
        fun some => (some rfl).elim, fun e' same => ?_⟩
      cases same
      simpa using foreign

end Config

end BoostBase
