import Contracts.TraceEvent

/-!
# Contracts.Host

What running a callback means.

* `Check ε`, `Completion ε` — the answers of predicates and operations, now or later.
* `Host κ ε` — the meaning of code of type `κ` in each of its uses.

Everything that follows is stated for an arbitrary host: callbacks may do anything to the state,
take any number of polls, and give up.
-/

namespace Contracts

abbrev Check (ε : Type) : Type := Eventual (World ε) Bool

abbrev Completion (ε : Type) : Type := Eventual (World ε) (Except ContractError Value)

structure Host (κ ε : Type) where
  /-- A predicate over a list of values. -/
  accepts : κ → List Value → Action (World ε) (Check ε)
  /-- A predicate over the receiver. -/
  holds : κ → Value → Action (World ε) (Check ε)
  /-- An operation on a receiver. -/
  operate : κ → Value → Input → Action (World ε) (Completion ε)
  /-- The read half of an accessor. -/
  read : κ → Value → Action (World ε) Value
  /-- The initializer of a class, on a new object. -/
  setUp : κ → Value → List Value → Action (World ε) (Except ContractError Unit)
  /-- A trace sink, given an event. -/
  deliver : κ → TraceEvent → Action (World ε) Unit

end Contracts
