import MessageBroker.Topics.Journals

namespace MessageBroker.Topics

open Faulty Program Storage

/-- Behind every listed partition stands the stream of all batches it has taken since its creation.
    The journal has the last of them; retention has taken the others. -/
structure Streams (tree : Tree) (J : Bytes → Nat → Journal) (L : Bytes → Nat → List Batch) :
    Prop where
  stream : ∀ name id,
    tree.Lists name id →
      ∃ gone, L name id = gone ++ (J name id).batches ∧ (J name id).floor = span gone
  unlisted : ∀ name id, ¬ tree.Lists name id → (J name id).batches = []

/-- The host goes on: listed partitions stay listed, their streams get longer only by batches that
    were `sent`, and retention moves only forward. -/
structure Evolves (limit : Int) (tree : Tree) (J : Bytes → Nat → Journal)
    (L : Bytes → Nat → List Batch) (sent : Bytes → Nat → Batch → Prop) (J' : Bytes → Nat → Journal)
    (L' : Bytes → Nat → List Batch) (h : Host) : Prop where
  rooted : Rooted limit J' h
  streams : Streams h.tree J' L'
  listed : ∀ name id, tree.Lists name id → h.tree.Lists name id
  longer : ∀ name id,
    tree.Lists name id → ∃ added, L' name id = L name id ++ added ∧ ∀ b ∈ added, sent name id b
  floors : ∀ name id, tree.Lists name id → (J name id).floor ≤ (J' name id).floor
  fresh : ∀ name id, h.tree.Lists name id → ¬ tree.Lists name id → L' name id = []

def nothing : Bytes → Nat → Batch → Prop := fun _ _ _ => False

section Streams

variable {limit : Int} {J : Bytes → Nat → Journal} {L : Bytes → Nat → List Batch} {m : Manager}
  {tree : Tree} {h : Host} {name : Bytes} {id : Nat} {sent : Bytes → Nat → Batch → Prop}

theorem lists_same {tree' : Tree} (same : tree'.metadata = tree.metadata) :
    tree'.Lists name id ↔ tree.Lists name id := by
  unfold Tree.Lists
  rw [Tree.recorded_same same]

theorem Streams.logEnd (streams : Streams tree J L) (listed : tree.Lists name id) :
    span (L name id) = (J name id).logEnd := by
  obtain ⟨gone, batches, floor⟩ := streams.stream name id listed
  rw [batches, span_append, Journal.logEnd, floor]

theorem Streams.records {offset : Nat} (streams : Streams tree J L) (listed : tree.Lists name id)
    (low : (J name id).floor ≤ offset) :
    (storedFrom 0 (L name id)).drop offset =
      (J name id).records.drop (offset - (J name id).floor) := by
  obtain ⟨gone, batches, floor⟩ := streams.stream name id listed
  exact (J name id).drop_log batches floor low

theorem evolves_same (rooted : Rooted limit J h) (streams : Streams tree J L)
    (same : h.tree.metadata = tree.metadata) :
    Evolves limit tree J L sent J L h where
  rooted := rooted
  streams := ⟨fun name id listed => streams.stream name id ((lists_same same).mp listed),
    fun name id absent =>
      streams.unlisted name id fun listed => absent ((lists_same same).mpr listed)⟩
  listed _ _ listed := (lists_same same).mpr listed
  longer _ _ _ := ⟨[], by simp, by simp⟩
  floors _ _ _ := le_refl _
  fresh _ _ listed unlisted := absurd ((lists_same same).mp listed) unlisted

theorem Evolves.mono {J' : Bytes → Nat → Journal} {L' : Bytes → Nat → List Batch}
    {wider : Bytes → Nat → Batch → Prop} (evolves : Evolves limit tree J L sent J' L' h)
    (allows : ∀ name id b, sent name id b → wider name id b) :
    Evolves limit tree J L wider J' L' h :=
  { evolves with
    longer := fun name id listed => by
      obtain ⟨added, same, known⟩ := evolves.longer name id listed
      exact ⟨added, same, fun b member => allows name id b (known b member)⟩ }

/-- A partition that nothing is sent to keeps its stream. -/
theorem Evolves.keeps {J' : Bytes → Nat → Journal} {L' : Bytes → Nat → List Batch}
    (evolves : Evolves limit tree J L sent J' L' h) (listed : tree.Lists name id)
    (nothing : ∀ b, ¬ sent name id b) : L' name id = L name id := by
  obtain ⟨added, longer, known⟩ := evolves.longer name id listed
  cases added with
  | nil => rw [longer, List.append_nil]
  | cons b _ => exact absurd (known b List.mem_cons_self) (nothing b)

/-! ## A call on one partition's store -/

/-- The call moved its partition's journal and left the others as they were. -/
def Carries (limit : Int) (J : Bytes → Nat → Journal) (tree : Tree) (name : Bytes) (id : Nat)
    (s : Store) (action : Action) (outcome : Storage.Outcome) (h : Host) : Prop :=
  ∃ J', Moves anything ⟨some s, tree.partitions name id⟩ (J name id) action outcome J' ∧
    Rooted limit (movedAt J name id J') h ∧ h.tree.metadata = tree.metadata ∧ tree.Lists name id

def loggedAt (L : Bytes → Nat → List Batch) (name : Bytes) (id : Nat) (added : List Batch) :
    Bytes → Nat → List Batch :=
  fun other otherId => if (other, otherId) = (name, id) then L name id ++ added else L other otherId

@[simp] theorem movedAt_self {J' : Journal} : movedAt J name id J' name id = J' := by
  simp [movedAt]

@[simp] theorem loggedAt_self {added : List Batch} :
    loggedAt L name id added name id = L name id ++ added := by
  simp [loggedAt]

theorem movedAt_other {J' : Journal} {other : Bytes} {otherId : Nat}
    (differs : (other, otherId) ≠ (name, id)) :
    movedAt J name id J' other otherId = J other otherId := if_neg differs

theorem loggedAt_other {added : List Batch} {other : Bytes} {otherId : Nat}
    (differs : (other, otherId) ≠ (name, id)) :
    loggedAt L name id added other otherId = L other otherId := if_neg differs

theorem movedAt_same : movedAt J name id (J name id) = J := by
  funext other otherId
  unfold movedAt
  split_ifs with own
  · cases own
    rfl
  · rfl

section OnStore

variable {s : Store} {action : Action} {outcome : Storage.Outcome}

theorem Rooted.carries {α : Type} {call : StoreProgram α} {report : α → Storage.Outcome}
    (rooted : Rooted limit J ⟨some m, tree⟩) (found : m.store? name id = some s)
    (follows : ∀ faults,
      Follows anything (crashPolicy limit) (·.maxBatchBytes = limit)
        ⟨some s, tree.partitions name id⟩
      (J name id) action (settle report (call ⟨s, tree.partitions name id, faults⟩)).1
      (settle report (call ⟨s, tree.partitions name id, faults⟩)).2) :
    Meets anything (Topics.onStore name id call) m tree
      ⟨fun value m' tree' => Carries limit J tree name id s action (report value) ⟨some m', tree'⟩,
       fun _ m' tree' =>
         ∃ reason, Carries limit J tree name id s action (.failed reason) ⟨some m', tree'⟩,
       fun tree' => Carries limit J tree name id s action .died ⟨none, tree'⟩⟩ := by
  have listed := rooted.lists.mpr ⟨s, found⟩
  refine meets_onStore found fun faults _ => ?_
  obtain ⟨J', moves, tracks, _⟩ := follows faults
  rcases ran : call ⟨s, tree.partitions name id, faults⟩ with ⟨exit, after⟩
  rw [ran] at moves tracks
  cases exit with
  | ok value => exact ⟨⟨J', moves, rooted.goesOn found tracks, rfl, listed⟩, fun _ _ => trivial⟩
  | error reason =>
    exact ⟨⟨reason, J', moves, rooted.goesOn found tracks, rfl, listed⟩, fun _ _ => trivial⟩
  | died => exact ⟨J', moves, rooted.moved found tracks.holds, rfl, listed⟩

/-- What a move adds to the stream is the batch of its call. -/
theorem Carries.evolves (carries : Carries limit J tree name id s action outcome h)
    (streams : Streams tree J L)
    (brings : ∀ b, writtenOf action outcome = some b ∨ pendingOf action outcome = some b →
      sent name id b) :
    ∃ J' added, (added = (writtenOf action outcome).toList ∨
      ∃ b, pendingOf action outcome = some b ∧ added = [b]) ∧
      Moves anything ⟨some s, tree.partitions name id⟩ (J name id) action outcome J' ∧
      Evolves limit tree J L sent (movedAt J name id J') (loggedAt L name id added) h := by
  obtain ⟨J', moves, rooted, same, here⟩ := carries
  obtain ⟨gone, added, adds, batches, floor⟩ :=
    @Moves.effect anything (J name id) J' ⟨⟨some s, tree.partitions name id⟩, ⟨action, []⟩, outcome,
      ⟨none, Directory.empty⟩⟩ moves
  replace adds :
      added = (writtenOf action outcome).toList ∨
        ∃ b, pendingOf action outcome = some b ∧ added = [b] :=
    adds.imp (fun same => same) And.right
  have known : ∀ b ∈ added, sent name id b := by
    intro b member
    rcases adds with rfl | ⟨pending, found, rfl⟩
    · exact brings b (Or.inl (Option.mem_toList.mp member))
    · rw [List.mem_singleton] at member
      exact brings b (Or.inr (member ▸ found))
  refine ⟨J', added, adds, moves, rooted, ⟨?_, ?_⟩, fun _ _ listed => (lists_same same).mpr listed,
    ?_, ?_, fun _ _ listed unlisted => absurd ((lists_same same).mp listed) unlisted⟩
  · intro other otherId listed
    by_cases own : (other, otherId) = (name, id)
    · cases own
      obtain ⟨before, whole, start⟩ := streams.stream name id ((lists_same same).mp listed)
      refine ⟨before ++ gone, ?_, ?_⟩
      · rw [loggedAt_self, movedAt_self, whole, List.append_assoc, batches, List.append_assoc]
      · rw [movedAt_self, floor, start, span_append]
    · rw [loggedAt_other own, movedAt_other own]
      exact streams.stream other otherId ((lists_same same).mp listed)
  · intro other otherId absent
    have unlisted : ¬ tree.Lists other otherId :=
      fun listed => absent ((lists_same same).mpr listed)
    rw [movedAt_other fun own => unlisted (by cases own; exact here)]
    exact streams.unlisted other otherId unlisted
  · intro other otherId _
    by_cases own : (other, otherId) = (name, id)
    · cases own
      exact ⟨added, loggedAt_self, known⟩
    · exact ⟨[], by rw [loggedAt_other own, List.append_nil], by simp⟩
  · intro other otherId _
    by_cases own : (other, otherId) = (name, id)
    · cases own
      rw [movedAt_self, floor]
      exact Nat.le_add_right _ _
    · rw [movedAt_other own]

theorem Carries.read {offset : Nat} {maxBytes : Int}
    (carries : Carries limit J tree name id s (.read offset maxBytes) outcome h)
    (streams : Streams tree J L) : Evolves limit tree J L nothing J L h := by
  obtain ⟨J', moves, rooted, same, _⟩ := carries
  have still : J' = J name id := by cases moves <;> rfl
  rw [still, movedAt_same] at rooted
  exact evolves_same rooted streams same

/-- On a healthy disk an append that is not acknowledged leaves its partition as it was. -/
theorem Rooted.append_firm {now : Instant} {records : List Record}
    (rooted : Rooted limit J ⟨some m, tree⟩) (found : m.store? name id = some s)
    (small : limit < 2 ^ 31) (room : s.logEndOffset + records.length < 2 ^ 64) :
    Meets never (Topics.onStore name id (append now records)) m tree
      ⟨fun value m' tree' =>
        Carries limit J tree name id s (.append now records) (.appended value.1 value.2)
          ⟨some m', tree'⟩,
       fun _ m' tree' => Rooted limit J ⟨some m', tree'⟩ ∧ tree'.metadata = tree.metadata,
       fun _ => False⟩ := by
  have listed := rooted.lists.mpr ⟨s, found⟩
  have tracks := rooted.tracks name id
  have admits := rooted.admits name id small (.append now records)
  change Tracks _ _ _ _ ⟨m.store? name id, _⟩ at tracks
  rw [found] at tracks admits
  have stays : ∀ {s' d'},
      Tracks anything (crashPolicy limit) (·.maxBatchBytes = limit) (J name id) ⟨some s', d'⟩ →
      Rooted limit J ⟨some (m.setStore name id s'), tree.setPartition name id d'⟩ := by
    intro s' d' after
    have moved := rooted.goesOn found after
    rwa [movedAt_same] at moved
  apply meets_onStore found
  cases tracks with
  | running setting represents =>
    rw [represents.logEndOffset] at room
    refine meets_append (P := crashPolicy limit) (b := ⟨unixMilli now, records⟩) represents
      (le_refl _) (fun shaky => absurd shaky not_shaky_never) (admits s rfl) rfl room ?_ ?_ ?_ ?_ ?_
    · exact fun reason _ => ⟨stays (.running setting represents), rfl⟩
    · exact fun _ _ _ => ⟨stays (.running setting { represents with }), rfl⟩
    · intro nonempty _ running size s' d' after keeps _
      exact ⟨_, .appended rfl running nonempty size,
        rooted.goesOn found (.running (by rw [keeps.config]; exact setting) after), rfl, listed⟩
    · exact fun _ shaky => absurd shaky not_shaky_never
    · exact fun _ shaky => absurd shaky not_shaky_never
  | broken setting shaky broken =>
    exact meets_append_refused broken.writeFailed
      fun reason _ => ⟨stays (.broken setting shaky broken), rfl⟩

end OnStore

/-! ## Creating a topic -/

def emptiedAt (L : Bytes → Nat → List Batch) (name : Bytes) : Bytes → Nat → List Batch :=
  fun other id => if other = name then [] else L other id

/-- A topic that was not there has come, or its creation was given up; it has no records. `stores`
    are those that the process has behind the call. -/
structure Founds (limit : Int) (J : Bytes → Nat → Journal) (tree : Tree) (name : Bytes)
    (stores : Bytes → Nat → Option Store) (tree' : Tree) : Prop where
  stopped : Rooted limit (freshAt J name) ⟨none, tree'⟩
  absent : tree.recorded.lookup name = none
  others : ∀ other, other ≠ name → tree'.recorded.lookup other = tree.recorded.lookup other
  tracks : ∀ other id s, stores other id = some s →
    Tracks anything (crashPolicy limit) (·.maxBatchBytes = limit) (freshAt J name other id)
      ⟨some s, tree'.partitions other id⟩

section Founds

variable {stores : Bytes → Nat → Option Store} {tree' : Tree}

theorem Founds.evolves (founds : Founds limit J tree name stores h.tree)
    (rooted : Rooted limit (freshAt J name) h) (streams : Streams tree J L) :
    Evolves limit tree J L sent (freshAt J name) (emptiedAt L name) h := by
  have unlisted : ∀ other id, tree.Lists other id → other ≠ name := by
    rintro _ id ⟨dt, recorded, _⟩ rfl
    rw [founds.absent] at recorded
    cases recorded
  have foreign : ∀ other id, other ≠ name → (h.tree.Lists other id ↔ tree.Lists other id) := by
    intro other id differs
    unfold Tree.Lists
    rw [founds.others other differs]
  refine ⟨rooted, ⟨?_, ?_⟩, ?_, ?_, ?_, ?_⟩
  · intro other id listed
    unfold freshAt emptiedAt
    by_cases own : other = name
    · rw [if_pos own, if_pos own]
      exact ⟨[], rfl, rfl⟩
    · rw [if_neg own, if_neg own]
      exact streams.stream other id ((foreign other id own).mp listed)
  · intro other id absent
    unfold freshAt
    by_cases own : other = name
    · rw [if_pos own]
      rfl
    · rw [if_neg own]
      exact streams.unlisted other id fun listed => absent ((foreign other id own).mpr listed)
  · exact fun other id listed => (foreign other id (unlisted other id listed)).mpr listed
  · intro other id listed
    exact ⟨[], by rw [emptiedAt, if_neg (unlisted other id listed), List.append_nil], by simp⟩
  · intro other id listed
    rw [freshAt, if_neg (unlisted other id listed)]
  · intro other id listed gone
    by_cases own : other = name
    · exact if_pos own
    · exact absurd ((foreign other id own).mp listed) gone

theorem Founds.running {J' : Bytes → Nat → Journal}
    (founds : Founds limit J tree name m.store? tree') (running : Rooted limit J' ⟨some m, tree'⟩) :
    Rooted limit (freshAt J name) ⟨some m, tree'⟩ where
  toRegistered := running.toRegistered
  config := running.config
  blank := running.blank
  tracks other id := by
    show Tracks _ _ _ _ ⟨m.store? other id, tree'.partitions other id⟩
    cases found : m.store? other id with
    | none => exact founds.stopped.tracks other id
    | some s => exact founds.tracks other id s found

theorem Rooted.founds {metadata : Option MetadataText} (rooted : Rooted limit J ⟨some m, tree⟩)
    (absent : m.topics.lookup name = none) (whole : metadata ≠ some .cut)
    (confined : Confined (fun d => Kept limit Journal.initial True d) name tree metadata tree')
    (others : ∀ other, other ≠ name → tree'.recorded.lookup other = tree.recorded.lookup other)
    (foreign : ∀ other id,
      other ≠ name → stores other id = m.store? other id ∨ stores other id = none)
    (own : ∀ id s, stores name id = some s →
      Tracks anything (crashPolicy limit) (·.maxBatchBytes = limit) Journal.initial
        ⟨some s, tree'.partitions name id⟩) :
    Founds limit J tree name stores tree' where
  stopped := rooted.died whole confined others
  absent := by
    rw [← rooted.topics m rfl name, absent]
    rfl
  others := others
  tracks other id s found := by
    unfold freshAt
    by_cases same : other = name
    · subst same
      rw [if_pos rfl]
      exact own id s found
    · have tracks := rooted.tracks other id
      change Tracks _ _ _ _ ⟨m.store? other id, tree.partitions other id⟩ at tracks
      rcases foreign other id same with kept | nothing
      · rw [if_neg same, confined.others same id, ← found, kept]
        exact tracks
      · rw [nothing] at found
        cases found

end Founds

theorem Rooted.createTopic_evolves {count : Int} {retention : RetentionPolicy}
    (rooted : Rooted limit J ⟨some m, tree⟩) (streams : Streams tree J L) :
    Meets anything (Topics.createTopic name count retention) m tree
      ⟨fun _ m' tree' => ∃ J' L', Evolves limit tree J L nothing J' L' ⟨some m', tree'⟩,
       fun _ m' tree' => ∃ J' L', Evolves limit tree J L nothing J' L' ⟨some m', tree'⟩,
       fun tree' => ∃ J' L', Evolves limit tree J L nothing J' L' ⟨none, tree'⟩⟩ := by
  have added : ∀ (tree' : Tree) entry,
      tree'.metadata = some (.encoded (tree.recorded.insert name entry)) →
      ∀ other, other ≠ name → tree'.recorded.lookup other = tree.recorded.lookup other := by
    intro tree' entry metadata other differs
    rw [Tree.recorded, metadata]
    exact AList.lookup_insert_ne differs
  have kept : ∀ tree' : Tree, tree'.metadata = tree.metadata →
      ∀ other, other ≠ name → tree'.recorded.lookup other = tree.recorded.lookup other :=
    fun tree' same _ _ => by rw [Tree.recorded_same same]
  have before : m.topics.lookup name = none →
      ∀ id, Kept limit Journal.initial True (tree.partitions name id) := by
    intro absent id
    have blank := rooted.blank name (by rw [← rooted.topics m rfl name, absent]; rfl) id
    exact ⟨blank.holds, fun _ => blank⟩
  have founds : Meets anything (Topics.createTopic name count retention) m tree
      ⟨fun _ m' tree' => Founds limit J tree name m'.store? tree',
       fun _ m' tree' => m' = m ∧ tree' = tree ∨ Founds limit J tree name m'.store? tree',
       fun tree' => Founds limit J tree name (fun _ _ => none) tree'⟩ := by
    refine meets_createTopic (keeping_fresh (rooted.config m rfl)) rooted.whole before
      (fun _ => Or.inl ⟨rfl, rfl⟩) ?_ ?_ ?_ ?_
    · intro absent _ _ _ stores tree' _ confined opened
      refine rooted.founds absent (by simp) confined (added tree' _ confined.metadata)
        (fun other id differs => Or.inl ?_) ?_
      · unfold Manager.store?
        rw [AList.lookup_insert_ne differs]
      · intro id s found
        rw [store?_eq (AList.lookup_insert _)] at found
        obtain ⟨sized, represents, _⟩ := opened id s found
        exact .running sized represents
    · intro absent _ tree' confined
      refine Or.inr (rooted.founds absent rooted.whole confined (kept tree' confined.metadata)
        (fun _ _ _ => Or.inl rfl) ?_)
      intro id s found
      simp [Manager.store?, absent] at found
    · intro absent tree' confined
      exact rooted.founds absent rooted.whole confined (kept tree' confined.metadata)
        (fun _ _ _ => Or.inr rfl) (by simp)
    · intro absent _ _ _ _ tree' _ confined _
      exact rooted.founds absent (by simp) confined (added tree' _ confined.metadata)
        (fun _ _ _ => Or.inr rfl) (by simp)
  refine (founds.both rooted.createTopic).mono ?_ ?_ ?_
  · rintro _ m' tree' ⟨founds, _, running, _⟩
    exact ⟨_, _, Founds.evolves founds (founds.running running) streams⟩
  · rintro _ m' tree' ⟨⟨rfl, rfl⟩ | founds, _, running, _⟩
    · exact ⟨J, L, evolves_same rooted streams rfl⟩
    · exact ⟨_, _, Founds.evolves founds (founds.running running) streams⟩
  · rintro tree' ⟨founds, _⟩
    exact ⟨_, _, Founds.evolves founds founds.stopped streams⟩

end Streams

end MessageBroker.Topics
