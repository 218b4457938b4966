import MessageBroker.Topics.Housing

namespace MessageBroker.Topics

open Faulty Program Storage

/-! A topic that is created on a healthy disk. -/

section Founding

variable {μ : Type} {memo : μ} {m : Manager} {tree : Tree} {name : Bytes} {config : Config}
  {limit : Int}

def Fresh (s : Store) : Prop := s.earliestOffset = 0 ∧ s.logEndOffset = 0

end Founding

end MessageBroker.Topics
