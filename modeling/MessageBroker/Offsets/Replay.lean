import MessageBroker.Offsets.Entries
import MessageBroker.Storage.FileRules

namespace MessageBroker.Offsets

open Faulty Program BigEndian Crc32
open Storage (Operation overwrite overwrite_end Shaky)

/-! ## What the file may hold -/

def Torn (tail : Bytes) : Prop :=
  tail = [] ∨ ∃ (e : Entry) (written : Nat),
    e.Valid ∧ written < e.bytes.length ∧ tail = e.bytes.take written

/-- A file that is not there yet, or the log's entries and perhaps a torn one. -/
structure Holds (log : List Entry) (d : Disk) : Prop where
  valid : ∀ e ∈ log, e.Valid
  file : log = [] ∧ d.file = none ∨ ∃ tail, d.file = some (logBytes log ++ tail) ∧ Torn tail

/-- An open store that stands for the log. -/
structure Represents (log : List Entry) (s : Store) (d : Disk) : Prop where
  valid : ∀ e ∈ log, e.Valid
  file : d.file = some (logBytes log)
  size : s.size = (logBytes log).length
  offsets : ∀ key, s.offsets.lookup key = latest log key

theorem Represents.holds {log : List Entry} {s : Store} {d : Disk}
    (represents : Represents log s d) : Holds log d :=
  ⟨represents.valid, Or.inr ⟨[], by rw [represents.file, List.append_nil], Or.inl rfl⟩⟩

/-! ## Rules -/

section Rules

variable {μ α : Type} {allowed : Fault → Prop} {m : μ} {d : Disk} {data : Bytes}

theorem meets_fileOperation {post : Post μ Disk OffsetError α} {operation : Operation}
    {action : Disk → Except OffsetError α × Disk} (passes : post.accepts m (action d))
    (fails : Shaky allowed → post.fails (.io operation) m d) (dies : Shaky allowed → post.dies d) :
    Meets allowed (fileOperation operation action) m d post :=
  Meets.operate passes (fun _ possible => fails ⟨_, possible⟩)
    (fun _ possible => dies ⟨_, possible⟩)

theorem meets_readAt {post : Post μ Disk OffsetError Bytes} {position count : Nat}
    (found : d.file = some data) (inside : position + count ≤ data.length)
    (returns : post.returns ((data.drop position).take count) m d)
    (fails : Shaky allowed → post.fails (.io .readAt) m d) (dies : Shaky allowed → post.dies d) :
    Meets allowed (readAt position count) m d post := by
  apply meets_fileOperation _ fails dies
  simpa only [Post.accepts, found, inside, if_true] using returns

theorem meets_writeAt_end {post : Post μ Disk OffsetError Unit} {bytes : Bytes}
    (found : d.file = some data) (returns : post.returns () m ⟨some (data ++ bytes)⟩)
    (fails : Shaky allowed →
      ∀ written, post.fails (.io .writeAt) m ⟨some (data ++ bytes.take written)⟩)
    (dies : Shaky allowed → ∀ written, post.dies ⟨some (data ++ bytes.take written)⟩) :
    Meets allowed (writeAt data.length bytes) m d post := by
  unfold writeAt
  apply Meets.operate
  · simpa only [Post.accepts, found, Option.map_some, overwrite_end] using returns
  · intro written possible
    simpa only [found, Option.map_some, overwrite_end] using fails ⟨_, possible⟩ written
  · intro written possible
    simpa only [found, Option.map_some, overwrite_end] using dies ⟨_, possible⟩ written

theorem meets_truncateAndSync {post : Post μ Disk OffsetError Unit} {log : List Entry}
    {tail : Bytes} (valid : ∀ e ∈ log, e.Valid) (torn : Torn tail)
    (found : d.file = some (logBytes log ++ tail))
    (returns : post.returns () m ⟨some (logBytes log)⟩)
    (fails : Shaky allowed → ∀ operation d', Holds log d' → post.fails (.io operation) m d')
    (dies : Shaky allowed → ∀ d', Holds log d' → post.dies d') :
    Meets allowed (truncateAndSync (logBytes log).length) m d post := by
  have before : Holds log d := ⟨valid, Or.inr ⟨tail, found, torn⟩⟩
  have after : Holds log ⟨some (logBytes log)⟩ :=
    ⟨valid, Or.inr ⟨[], by rw [List.append_nil], Or.inl rfl⟩⟩
  have cut : (logBytes log ++ tail ++
      List.replicate ((logBytes log).length - (logBytes log ++ tail).length) 0).take
      (logBytes log).length = logBytes log := by
    rw [List.append_assoc, List.take_left]
  apply Meets.bind
  refine meets_fileOperation ?_ (fun shaky => fails shaky _ _ before)
    (fun shaky => dies shaky _ before)
  simp only [Post.accepts, found, cut]
  exact meets_fileOperation returns (fun shaky => fails shaky _ _ after)
    (fun shaky => dies shaky _ after)

end Rules

/-! ## The scan -/

section Scan

variable {μ : Type} {allowed : Fault → Prop} {m : μ} {d : Disk}

/-- The scan from the end of the entries it has replayed: it takes the rest and drops a torn
    tail. -/
theorem meets_recoverFrom {post : Post μ Disk OffsetError (AList (fun _ : Key => UInt64) × Nat)}
    {rest done : List Entry} {tail : Bytes} (valid : ∀ e ∈ done ++ rest, e.Valid) (torn : Torn tail)
    (found : d.file = some (logBytes (done ++ rest) ++ tail))
    (returns : post.returns (replay (done ++ rest), (logBytes (done ++ rest)).length) m
      ⟨some (logBytes (done ++ rest))⟩)
    (fails : Shaky allowed →
      ∀ operation d', Holds (done ++ rest) d' → post.fails (.io operation) m d')
    (dies : Shaky allowed → ∀ d', Holds (done ++ rest) d' → post.dies d') :
    Meets allowed (recoverFrom (logBytes (done ++ rest) ++ tail).length (logBytes done).length
      (replay done)) m d post := by
  have whole : Holds (done ++ rest) d := ⟨valid, Or.inr ⟨tail, found, torn⟩⟩
  induction rest generalizing done with
  | nil =>
    rw [List.append_nil] at valid found returns whole fails dies ⊢
    have cut : Meets allowed
        (do truncateAndSync (logBytes done).length; pure (replay done, (logBytes done).length)) m d
        post := by
      apply Meets.bind
      exact meets_truncateAndSync valid torn found (Meets.pure returns) fails dies
    rw [recoverFrom, List.length_append]
    by_cases inside : (logBytes done).length < (logBytes done).length + tail.length
    · rw [dif_pos inside]
      obtain ⟨e, written, entry, short, rfl⟩ := torn.resolve_left (by rintro rfl; simp at inside)
      rw [List.length_take, Nat.min_eq_left (le_of_lt short)] at inside ⊢
      have size := e.bytes_length
      obtain ⟨_, groupLimit, _, topicLimit⟩ := entry.lengths
      split_ifs with little
      · exact cut
      · have enough : 9 ≤ written := by
          unfold offsetPrefixSize at little
          omega
        obtain ⟨magic, version⟩ := e.markers enough
        apply Meets.bind
        refine meets_readAt found ?_ ?_ (fun shaky => fails shaky _ _ whole)
          (fun shaky => dies shaky _ whole)
        · unfold offsetPrefixSize
          rw [List.length_append, List.length_take]
          omega
        unfold offsetPrefixSize
        rw [List.drop_left]
        dsimp only
        rw [Entry.lengthField entry enough, magic, version, if_neg (by simp),
          if_neg (by unfold offsetMinRemainder; omega),
          if_neg (by unfold maxOffsetEntryBytes; omega), if_pos (by omega)]
        exact cut
    · rw [dif_neg inside]
      have nothing : tail = [] := List.eq_nil_of_length_eq_zero (by omega)
      have same : d = ⟨some (logBytes done)⟩ := by
        cases d
        rw [nothing, List.append_nil] at found
        exact congrArg Disk.mk found
      rw [← same] at returns
      exact Meets.pure returns
  | cons e rest ih =>
    have entry : e.Valid := valid e (by simp)
    have layout : logBytes (done ++ e :: rest) ++ tail =
        logBytes done ++ (e.bytes ++ (logBytes rest ++ tail)) := by
      simp [logBytes]
    have size := e.bytes_length
    have room : (logBytes done).length + e.bytes.length ≤
        (logBytes (done ++ e :: rest) ++ tail).length := by
      rw [layout]
      simp only [List.length_append]
      omega
    obtain ⟨_, groupLimit, _, topicLimit⟩ := entry.lengths
    have split : done ++ e :: rest = (done ++ [e]) ++ rest := by simp
    have enough : 9 ≤ e.bytes.length := by omega
    obtain ⟨magic, version⟩ := e.markers enough
    have length := Entry.lengthField entry enough
    rw [List.take_length] at magic version length
    rw [recoverFrom, dif_pos (by omega), if_neg (by unfold offsetPrefixSize; omega)]
    apply Meets.bind
    refine meets_readAt found (by unfold offsetPrefixSize; omega) ?_
      (fun shaky => fails shaky _ _ whole) (fun shaky => dies shaky _ whole)
    unfold offsetPrefixSize
    rw [layout, List.drop_left, List.take_append_of_le_length enough]
    dsimp only
    rw [length, magic, version, if_neg (by simp), if_neg (by unfold offsetMinRemainder; omega),
      if_neg (by unfold maxOffsetEntryBytes; omega), if_neg (by rw [← layout]; omega)]
    apply Meets.bind
    refine meets_readAt found (by omega) ?_ (fun shaky => fails shaky _ _ whole)
      (fun shaky => dies shaky _ whole)
    have frame : ((logBytes done ++ (e.bytes ++ (logBytes rest ++ tail))).drop
        ((logBytes done).length + 9)).take
        (32 + e.key.group.length + e.key.topic.length) =
        put 4 (checksumIEEE e.payload) ++ e.payload := by
      rw [← e.body, ← List.drop_drop, List.drop_left, List.drop_append_of_le_length enough,
        List.take_left']
      rw [List.length_drop]
      omega
    rw [layout, frame]
    dsimp only
    rw [List.take_left' (put_length 4 _), List.drop_left' (put_length 4 _),
      get_put_of_lt (checksumIEEE_lt _), if_neg (by simp), Entry.parse entry]
    dsimp only
    rw [← replay_append, ← layout,
      show (logBytes done).length + 9 + (32 + e.key.group.length + e.key.topic.length) =
      (logBytes (done ++ [e])).length by rw [logBytes_append]; simp [logBytes]; omega]
    rw [split] at valid found returns fails dies whole ⊢
    exact ih valid found returns fails dies whole

/-- Opening the file gives the store of its entries, whatever an interrupted write left behind
    them. -/
theorem meets_openStore {post : Post μ Disk OffsetError Store} {log : List Entry}
    (holds : Holds log d)
    (returns : ∀ s d',
      Represents log s d' → s.closed = false → s.writeFailed = false → post.returns s m d')
    (fails : Shaky allowed → ∀ operation d', Holds log d' → post.fails (.io operation) m d')
    (dies : Shaky allowed → ∀ d', Holds log d' → post.dies d') :
    Meets allowed openStore m d post := by
  apply Meets.bind
  refine meets_fileOperation ?_ (fun shaky => fails shaky _ _ holds)
    (fun shaky => dies shaky _ holds)
  apply Meets.bind
  refine meets_fileOperation ?_ (fun shaky => fails shaky _ _ holds)
    (fun shaky => dies shaky _ holds)
  obtain ⟨tail, found, torn⟩ : ∃ tail, d.file.getD [] = logBytes log ++ tail ∧ Torn tail := by
    rcases holds.file with ⟨rfl, missing⟩ | ⟨tail, found, torn⟩
    · exact ⟨[], by rw [missing]; rfl, Or.inl rfl⟩
    · exact ⟨tail, by rw [found]; rfl, torn⟩
  have opened : Holds log ⟨some (d.file.getD [])⟩ :=
    ⟨holds.valid, Or.inr ⟨tail, by rw [found], torn⟩⟩
  show Meets allowed (onError recover closeFile) m ⟨some (d.file.getD [])⟩ post
  have closes : ∀ operation d', Holds log d' → Shaky allowed → Meets allowed closeFile m d'
      ⟨fun _ => post.fails (.io operation), fun _ => post.fails (.io operation), post.dies⟩ := by
    intro operation d' after shaky
    exact meets_fileOperation (fails shaky _ _ after) (fun shaky => fails shaky _ _ after)
      (fun shaky => dies shaky _ after)
  apply Meets.onError
  apply Meets.bind
  refine meets_fileOperation ?_ (fun shaky => closes _ _ opened shaky)
    (fun shaky => dies shaky _ opened)
  apply Meets.bind
  rw [found]
  show Meets allowed
    (recoverFrom (logBytes ([] ++ log) ++ tail).length (logBytes []).length (replay [])) m _ _
  refine meets_recoverFrom holds.valid torn rfl ?_ ?_ ?_
  · exact Meets.pure (returns _ _ ⟨holds.valid, rfl, rfl, fun key => lookup_replay log key⟩ rfl rfl)
  · exact fun shaky operation d' after => closes operation d' after shaky
  · exact fun shaky d' after => dies shaky d' after

end Scan

end MessageBroker.Offsets
