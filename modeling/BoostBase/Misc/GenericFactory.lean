import Mathlib.Data.List.Induction

namespace BoostBase

/-- What a factory and the parsing of a config can throw. `notObject`, `notBool` and `keyNotFound`
    are those of the JSON library, `standard` is any other `std::exception`, `foreign` is not
    derived from it. -/
inductive Thrown
  | notObject
  | notBool
  | keyNotFound
  | runtimeError (what : String)
  | badAnyCast
  | standard (what : String)
  | foreign
  deriving DecidableEq, Repr

def Thrown.isStdException : Thrown → Bool
  | .foreign => false
  | _ => true

/-- A `TCreator` in a `std::any`: it can be cast to its own signature only. A null pointer is
    `none`. -/
structure Creator (σ : Type) (Args : σ → Type) (β : Type) where
  signature : σ
  call : Args signature → Except Thrown (Option β)

structure GenericFactory (σ : Type) (Args : σ → Type) (β : Type) where
  types : List (String × Creator σ Args β)

/-- What the constraints of `registerType` let through: a creator whose objects are of the type
    it is registered for. -/
structure Registration (σ : Type) (Args : σ → Type) {β κ : Type} (IsA : β → κ → Prop) where
  type : κ
  creator : Creator σ Args β
  derived : ∀ args o, creator.call args = .ok (some o) → IsA o type

namespace GenericFactory

variable {σ : Type} {Args : σ → Type} {β : Type}

def new : GenericFactory σ Args β := ⟨[]⟩

def find (f : GenericFactory σ Args β) (className : String) : Option (Creator σ Args β) :=
  f.types.lookup className

def erase (f : GenericFactory σ Args β) (className : String) : GenericFactory σ Args β :=
  ⟨f.types.filter fun entry => entry.1 ≠ className⟩

def emplace (f : GenericFactory σ Args β) (className : String) (c : Creator σ Args β) :
    GenericFactory σ Args β :=
  if (f.find className).isSome then f else ⟨f.types ++ [(className, c)]⟩

def insert (f : GenericFactory σ Args β) (className : String) (c : Creator σ Args β) :
    GenericFactory σ Args β :=
  (f.erase className).emplace className c

def registerType {κ : Type} {IsA : β → κ → Prop} (typeName : κ → String)
    (f : GenericFactory σ Args β) (r : Registration σ Args IsA) : GenericFactory σ Args β :=
  f.insert (typeName r.type) r.creator

def create [DecidableEq σ] (f : GenericFactory σ Args β) (className : String) (signature : σ)
    (args : Args signature) : Except Thrown (Option β) :=
  match f.find className with
  | none => .error (.runtimeError "Type does not registered")
  | some c =>
    if same : c.signature = signature then c.call (same ▸ args) else .error .badAnyCast

variable {f : GenericFactory σ Args β} {className other : String} {c : Creator σ Args β}

theorem find_erase : (f.erase className).find className = none := by
  rw [find, List.lookup_eq_none_iff]
  intro entry member
  have kept : entry.1 ≠ className := by simpa using (List.mem_filter.mp member).2
  simpa using kept.symm

theorem find_erase_other (ne : other ≠ className) : (f.erase className).find other = f.find other := by
  obtain ⟨types⟩ := f
  induction types with
  | nil => rfl
  | cons entry types ih =>
    obtain ⟨key, creator⟩ := entry
    simp only [find, erase] at ih ⊢
    by_cases gone : key = className
    · have apart : (other == key) = false := beq_eq_false_iff_ne.mpr (gone ▸ ne)
      rw [List.filter_cons_of_neg (by simpa using gone), List.lookup_cons, apart]
      exact ih
    · rw [List.filter_cons_of_pos (by simpa using gone), List.lookup_cons, List.lookup_cons, ih]

theorem insert_types : (f.insert className c).types = (f.erase className).types ++ [(className, c)] := by
  rw [insert, emplace, find_erase]
  rfl

theorem find_insert : (f.insert className c).find className = some c := by
  rw [find, insert_types, List.lookup_append,
    show (f.erase className).types.lookup className = none from find_erase]
  simp

theorem find_insert_other (ne : other ≠ className) :
    (f.insert className c).find other = f.find other := by
  rw [find, insert_types, List.lookup_append,
    show (f.erase className).types.lookup other = _ from find_erase_other ne, List.lookup_cons,
    beq_eq_false_iff_ne.mpr ne]
  exact Option.or_none

section

variable {κ : Type} [DecidableEq κ] {IsA : β → κ → Prop} {typeName : κ → String}

def lastRegistered (rs : List (Registration σ Args IsA)) (type : κ) :
    Option (Registration σ Args IsA) :=
  rs.reverse.find? fun r => r.type = type

theorem find_registered (injective : typeName.Injective) (rs : List (Registration σ Args IsA))
    (type : κ) :
    (rs.foldl (registerType typeName) new).find (typeName type) =
      (lastRegistered rs type).map Registration.creator := by
  induction rs using List.reverseRecOn with
  | nil => rfl
  | append_singleton rs r ih =>
    rw [List.foldl_append, List.foldl_cons, List.foldl_nil, registerType, lastRegistered,
      List.reverse_append, List.reverse_singleton, List.singleton_append, List.find?_cons]
    by_cases same : r.type = type
    · subst same
      rw [find_insert]
      simp
    · rw [find_insert_other fun equal => same (injective equal).symm, ih]
      simp [same, lastRegistered]

variable [DecidableEq σ]

/-- Whatever was registered in whatever order: `create` calls what was registered for the type last,
    if the arguments have its signature, and throws otherwise; the object it returns can be cast to
    the type that was asked for. -/
theorem created_by_last (injective : typeName.Injective) (rs : List (Registration σ Args IsA))
    (type : κ) (signature : σ) (args : Args signature) :
    (rs.foldl (registerType typeName) new).create (typeName type) signature args =
        (match lastRegistered rs type with
        | none => .error (.runtimeError "Type does not registered")
        | some r =>
          if same : r.creator.signature = signature then r.creator.call (same ▸ args)
          else .error .badAnyCast) ∧
      ∀ o, (rs.foldl (registerType typeName) new).create (typeName type) signature args = .ok (some o) →
        IsA o type := by
  rw [create, find_registered injective]
  cases last : lastRegistered rs type with
  | none => exact ⟨rfl, fun o returned => by cases returned⟩
  | some r =>
    have found := List.find?_some last
    obtain rfl : r.type = type := of_decide_eq_true found
    refine ⟨rfl, fun o returned => ?_⟩
    dsimp only [Option.map_some] at returned
    split at returned
    · exact r.derived _ o returned
    · cases returned

end

end GenericFactory

/-- What the factories of a server and a client register and create. -/
inductive NetworkClass
  | session
  | tcpSocket
  | sslSocket
  deriving DecidableEq

namespace NetworkClass

def typeName : NetworkClass → String
  | .session => "Session"
  | .tcpSocket => "TCPSocket"
  | .sslSocket => "SSLSocket"

def DerivedFrom (derived base : NetworkClass) : Prop :=
  derived = base ∨ derived = .sslSocket ∧ base = .tcpSocket

/-- `Socket*`, and `io_context&` with `ip::tcp::socket&&`. -/
inductive Signature
  | socket
  | ioAndSocket
  deriving DecidableEq

abbrev NetworkRegistration := Registration Signature (fun _ => Nat) DerivedFrom

def registerDefaultType (type : NetworkClass) (signature : Signature) : NetworkRegistration :=
  ⟨type, ⟨signature, fun _ => .ok (some type)⟩, fun _ _ returned => by
    cases returned
    exact .inl rfl⟩

def constructed : List NetworkRegistration :=
  [registerDefaultType .session .socket, registerDefaultType .tcpSocket .ioAndSocket]

def enableSSL : NetworkRegistration :=
  ⟨.tcpSocket, ⟨.ioAndSocket, fun _ => .ok (some .sslSocket)⟩, fun _ _ returned => by
    cases returned
    exact .inr ⟨rfl, rfl⟩⟩

theorem typeName_injective : typeName.Injective := by
  intro a b same
  cases a <;> cases b <;> first | rfl | exact absurd same (by decide)

theorem created_by_last_ssl :
    ((constructed ++ [enableSSL]).foldl (GenericFactory.registerType typeName) .new).create
        (typeName .tcpSocket) Signature.ioAndSocket 7 = .ok (some .sslSocket) ∧
      DerivedFrom .sslSocket .tcpSocket :=
  have called := GenericFactory.created_by_last typeName_injective (constructed ++ [enableSSL])
    .tcpSocket .ioAndSocket 7
  ⟨called.1, called.2 _ called.1⟩

end NetworkClass

end BoostBase
