/-!
# Handles

Every object of a bus is named by a handle: a key together with the role the key was issued for.  One counter issues
the keys of all four roles, so a key belongs to one object for good.  The role is part of the type: the handle of a
topic is no handle of a user, even when somebody writes down the same number.
-/
namespace TopicBus

inductive Role
  | kind
  | user
  | topic
  | binding
deriving DecidableEq

def Role.label : Role → String
  | .kind => "kind"
  | .user => "user"
  | .topic => "topic"
  | .binding => "binding"

/-- The name of an object that has the given role. -/
structure Handle (role : Role) where
  key : Nat
deriving DecidableEq

/-- A kind of user ("client", "server"); writes are addressed to a kind. -/
abbrev Kind := Handle .kind

/-- A participant, of one kind. -/
abbrev User := Handle .user

/-- A channel that bindings are opened on. -/
abbrev Topic := Handle .topic

/-- One user's connection to one topic. -/
abbrev BindingId := Handle .binding

namespace Handle

/-- Handles of one role are ordered by age. -/
instance {role : Role} : Ord (Handle role) := ⟨fun a b => compare a.key b.key⟩

/-- The text of a handle: its role and its key, as in `user#2`. -/
def text {role : Role} (h : Handle role) : String := role.label ++ "#" ++ h.key.repr

theorem ext_key {role : Role} {a b : Handle role} (h : a.key = b.key) : a = b := by
  cases a; cases b; cases h; rfl

theorem key_inj {role : Role} {a b : Handle role} : a.key = b.key ↔ a = b :=
  ⟨ext_key, congrArg key⟩

end Handle

/-- The text of a key whose role is not known. -/
def keyText (key : Nat) : String := "key#" ++ key.repr

end TopicBus
