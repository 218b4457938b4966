import MessageBroker.Storage.Tracking

namespace MessageBroker.Storage

open Faulty

section Effect

variable {allowed : Fault → Prop} {J J' : Journal} {event : Event}

@[simp] theorem Journal.push_batches (J : Journal) (segmentMaxBytes : Int) (b : Batch) :
    (J.push segmentMaxBytes b).batches = J.batches ++ [b] := by
  unfold Journal.push
  split_ifs
  · rw [Journal.extend_batches, Journal.roll_batches]
  · rw [Journal.extend_batches]

@[simp] theorem Journal.push_floor (J : Journal) (segmentMaxBytes : Int) (b : Batch) :
    (J.push segmentMaxBytes b).floor = J.floor := by
  unfold Journal.push
  split_ifs <;> rfl

theorem Journal.push_logEnd (J : Journal) (segmentMaxBytes : Int) (b : Batch) :
    (J.push segmentMaxBytes b).logEnd = J.logEnd + b.records.length := by
  unfold Journal.push
  split_ifs
  · rw [Journal.extend_logEnd, Journal.roll_logEnd]
  · exact J.extend_logEnd b

theorem Journal.Reaches.effect {segmentMaxBytes : Int} {b : Batch}
    (reaches : J.Reaches segmentMaxBytes b J') :
    J'.floor = J.floor ∧ (J'.batches = J.batches ∨ J'.batches = J.batches ++ [b]) := by
  cases reaches with
  | same => exact ⟨rfl, Or.inl rfl⟩
  | rolled => exact ⟨rfl, Or.inl J.roll_batches⟩
  | pushed => exact ⟨J.push_floor _ _, Or.inr (J.push_batches _ _)⟩

theorem Journal.Pruned.effect {cutoff : Int} {weight : Nat → Nat} {maxPartitionBytes : Nat}
    (pruned : J.Pruned cutoff weight maxPartitionBytes J') :
    ∃ gone, J.batches = gone ++ J'.batches ∧ J'.floor = J.floor + span gone := by
  obtain ⟨old, big⟩ := pruned
  obtain ⟨first, batches, floor⟩ := old.batches
  obtain ⟨second, batches', floor'⟩ := big.batches
  refine ⟨first ++ second, ?_, ?_⟩
  · rw [batches, batches', List.append_assoc]
  · rw [floor', floor, span_append, Nat.add_assoc]

def Adds (allowed : Fault → Prop) (event : Event) (added : List Batch) : Prop :=
  added = (writtenBy event).toList ∨ Shaky allowed ∧ ∃ b, pendingBy event = some b ∧ added = [b]

/-- A move drops batches at the journal's start and adds at most one at its end. -/
theorem Moves.effect (moves : Moves allowed event.before J event.input.action event.outcome J') :
    ∃ gone added, Adds allowed event added ∧ J.batches ++ added = gone ++ J'.batches ∧
      J'.floor = J.floor + span gone := by
  obtain ⟨p, ⟨action, faults⟩, outcome, p'⟩ := event
  have stays : writtenBy ⟨p, ⟨action, faults⟩, outcome, p'⟩ = none → J' = J →
      ∃ gone added, Adds allowed ⟨p, ⟨action, faults⟩, outcome, p'⟩ added ∧
        J.batches ++ added = gone ++ J'.batches ∧ J'.floor = J.floor + span gone := by
    rintro nothing rfl
    exact ⟨[], [], Or.inl (by rw [nothing]; rfl), by simp, by simp⟩
  cases moves with
  | appended _ _ _ _ => exact ⟨[], _, Or.inl rfl, by simp [writtenBy, writtenOf], by simp⟩
  | @appendFailed now records s _ operation shaky _ _ reaches =>
    obtain ⟨floor, batches | batches⟩ := reaches.effect
    · exact ⟨[], [], Or.inl rfl, by simp [batches], by simp [floor]⟩
    · exact ⟨[], [⟨unixMilli now, records⟩], Or.inr ⟨shaky, _, rfl, rfl⟩, by simp [batches],
        by simp [floor]⟩
  | @appendDied now records s _ shaky _ _ reaches =>
    obtain ⟨floor, batches | batches⟩ := reaches.effect
    · exact ⟨[], [], Or.inl rfl, by simp [batches], by simp [floor]⟩
    · exact ⟨[], [⟨unixMilli now, records⟩], Or.inr ⟨shaky, _, rfl, rfl⟩, by simp [batches],
        by simp [floor]⟩
  | retained _ pruned =>
    obtain ⟨gone, batches, floor⟩ := pruned.effect
    exact ⟨gone, [], Or.inl rfl, by rw [List.append_nil, batches], floor⟩
  | noStore _ _ _ => exact stays (by cases action <;> rfl) rfl
  | _ => exact stays rfl rfl

theorem effect_logEnd {gone added : List Batch} (batches : J.batches ++ added = gone ++ J'.batches)
    (floor : J'.floor = J.floor + span gone) : J'.logEnd = J.logEnd + span added := by
  have total := congrArg span batches
  rw [span_append, span_append] at total
  rw [Journal.logEnd, Journal.logEnd, floor]
  omega

end Effect

end MessageBroker.Storage
