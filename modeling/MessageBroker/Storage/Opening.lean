import MessageBroker.Storage.SegmentRecovery
import MessageBroker.Storage.SegmentRules

namespace MessageBroker.Storage

open Faulty BigEndian

/-! ## All segments -/

section Loading

variable {μ : Type} {allowed : Fault → Prop} {m : μ} {P : Policy}

theorem meets_closeAllOpenSegments {segments : List Segment} {d : Directory}
    {post : Post μ Directory StoreError Unit} (returns : post.returns () m d)
    (dies : Shaky allowed → post.dies d) :
    Meets allowed (closeAllOpenSegments segments) m d post := by
  induction segments with
  | nil => exact Meets.pure returns
  | cons seg rest ih =>
    apply Meets.bind
    apply Meets.ignore
    exact meets_segmentClose ih (fun _ _ => ih) dies

theorem OnDisk.touched {index : Extent → Bytes → Prop} {e : Extent} {d d' : Directory}
    {tail : Bytes → Prop} (onDisk : OnDisk index tail e d) (created : index e [])
    (touched : Touched e.base d d') : OnDisk index tail e d' := by
  obtain ⟨file, left, found, content, rest⟩ := onDisk.log
  have untouched : d.touch (.log e.base) = d := touch_found found
  cases touched with
  | nothing => exact onDisk
  | log =>
    rw [untouched]
    exact onDisk
  | both =>
    rw [untouched]
    refine ⟨⟨file, left, by rw [file?_touch_other (by simp), found], content, rest⟩, ?_⟩
    intro index placed
    obtain ⟨file', found', origin⟩ := file?_touch_self d (.index e.base)
    rw [found', Option.some.injEq] at placed
    rw [← placed]
    rcases origin with old | ⟨_, empty⟩
    · exact onDisk.index file' old
    · rw [empty]
      exact created

theorem meets_loadSegment {α : Type} {config : Config} {active : Bool} {e : Extent} {d : Directory}
    {segments : List Segment} {post : Post μ Directory StoreError α}
    {onward : Segment × Nat → Program μ Directory StoreError α} (tail : Bytes → Prop)
    (keeps : Directory → Prop) (valid : e.Valid)
    (limit : ∀ b ∈ e.batches, (b.size : Int) ≤ config.maxBatchBytes)
    (onDisk : OnDisk P.index tail e d) (nothing : tail [])
    (torn : ∀ left, tail left → Torn config.maxBatchBytes left)
    (closed : active = false → ∀ left, tail left → left = [])
    (keep : ∀ d', OnDisk P.index tail e d' → Frame e.base d d' → keeps d')
    (returns : (∀ b ∈ e.batches, b.Readable) →
      ∀ seg' d', Mirrors e { seg' with nextOffset := e.next } d' →
      Frame e.base d d' → keeps d' → Meets allowed (onward (seg', e.next)) m d' post)
    (fails : Shaky allowed ∨ (∃ b ∈ e.batches, ¬ b.Readable) →
      ∀ reason d', keeps d' → post.fails reason m d')
    (dies : Shaky allowed → ∀ d', keeps d' → post.dies d') :
    Meets allowed (do
      let seg ← Program.onError (newSegment e.base active) (closeAllOpenSegments segments)
      let recovered ← Program.onError (recoverSegment config seg active)
        (closeAllOpenSegments (segments ++ [seg]))
      onward recovered) m d post := by
  have created : P.index e [] := P.index_holds e [] [] valid (indexHolds_nil e)
  have opening : ∀ d', Touched e.base d d' → keeps d' := fun d' touched =>
    keep d' (onDisk.touched created touched) touched.frame
  apply Meets.bind
  apply Meets.onError
  refine meets_newSegment ?_ ?_ (fun shaky d' touched => dies shaky d' (opening d' touched))
  · intro log index foundLog foundIndex
    have opened := onDisk.touched created (.both (d := d))
    have touched : Touched e.base d ((d.touch (.log e.base)).touch (.index e.base)) := .both
    have framed := touched.frame
    obtain ⟨file, left, found, content, rest⟩ := opened.log
    have same : file = log := by
      rw [foundLog, Option.some.injEq] at found
      exact found.symm
    subst same
    apply Meets.bind
    apply Meets.onError
    refine meets_recoverSegment (e := e) valid limit rfl rfl rfl foundLog content rest foundIndex
      rfl (opened.index index foundIndex) nothing torn closed ?_ ?_ ?_
    · intro readable seg' d' mirrors frame
      exact returns readable seg' d' mirrors (framed.trans frame)
        (keep d' (mirrors.onDisk (e := e) valid nothing) (framed.trans frame))
    · intro cause reason d' after frame
      have kept := keep d' after (framed.trans frame)
      exact meets_closeAllOpenSegments (fails cause reason d' kept)
        (fun shaky => dies shaky d' kept)
    · exact fun shaky d' after frame => dies shaky d' (keep d' after (framed.trans frame))
  · intro shaky operation d' touched
    exact meets_closeAllOpenSegments (fails (Or.inl shaky) _ d' (opening d' touched))
      (fun shaky => dies shaky d' (opening d' touched))

theorem mirrors_frame {extents : List Extent} {segments : List Segment} {d d' : Directory}
    {base : Nat} (mirrors : List.Forall₂ (fun e seg => Mirrors e seg d) extents segments)
    (frame : Frame base d d') (differs : ∀ e ∈ extents, e.base ≠ base) :
    List.Forall₂ (fun e seg => Mirrors e seg d') extents segments := by
  induction mirrors with
  | nil => exact .nil
  | cons head _ ih =>
    exact .cons (head.frame frame (differs _ List.mem_cons_self))
      (ih fun e member => differs e (List.mem_cons_of_mem _ member))

/-- Loading goes through the journal's closed segments in order. `keeps` is what holds of the
    directory on the way, and `active` says what becomes of the segment at the end. -/
theorem meets_loadClosed {J : Journal} {config : Config} (keeps : Directory → Prop)
    (done closed : List (List Batch)) {segments : List Segment} {d : Directory}
    {post : Post μ Directory StoreError (List Segment × Nat)} (valid : J.Valid)
    (limit : ∀ e ∈ J.closedExtents, ∀ b ∈ e.batches, (b.size : Int) ≤ config.maxBatchBytes)
    (kept : keeps d) (onDisk : ∀ d', keeps d' → ∀ e ∈ J.closedExtents, OnDisk P.index (· = []) e d')
    (change : ∀ e ∈ J.closedExtents,
      ∀ d' d'', keeps d' → OnDisk P.index (· = []) e d'' → Frame e.base d' d'' → keeps d'')
    (split : J.closed = done ++ closed)
    (loaded : List.Forall₂ (fun e seg => Mirrors e seg d) (extentsFrom J.floor done) segments)
    (readable : ∀ e ∈ extentsFrom J.floor done, ∀ b ∈ e.batches, b.Readable)
    (active : (∀ e ∈ J.closedExtents, ∀ b ∈ e.batches, b.Readable) →
      ∀ segments' d',
        keeps d' → List.Forall₂ (fun e seg => Mirrors e seg d') J.closedExtents segments' →
      Meets allowed (loadSegments config [J.activeBase] J.activeBase segments') m d' post)
    (fails : Shaky allowed ∨ (∃ e ∈ J.closedExtents, ∃ b ∈ e.batches, ¬ b.Readable) →
      ∀ reason d', keeps d' →
      post.fails reason m d')
    (dies : Shaky allowed → ∀ d', keeps d' → post.dies d') :
    Meets allowed (loadSegments config
      ((extentsFrom (J.floor + span done.flatten) closed).map Extent.base ++ [J.activeBase])
      (J.floor + span done.flatten) segments) m d post := by
  induction closed generalizing done segments d with
  | nil =>
    rw [List.append_nil] at split
    have base : J.floor + span done.flatten = J.activeBase := by rw [Journal.activeBase, split]
    rw [extentsFrom, List.map_nil, List.nil_append, base]
    rw [← split] at loaded readable
    exact active readable segments d kept loaded
  | cons batches closed ih =>
    have before : J.closedExtents = extentsFrom J.floor done ++
        (⟨J.floor + span done.flatten, batches⟩ ::
          extentsFrom (J.floor + span done.flatten + span batches) closed) := by
      rw [Journal.closedExtents, split, extentsFrom_append]
      rfl
    have member : (⟨J.floor + span done.flatten, batches⟩ : Extent) ∈ J.closedExtents := by
      rw [before]
      simp
    have present := List.mem_append_left [J.activeExtent] member
    have others : ∀ e ∈ extentsFrom J.floor done, e.base ≠ J.floor + span done.flatten := by
      have rising := (List.pairwise_append.mp valid.rising).1
      rw [before] at rising
      exact fun e earlier =>
        Nat.ne_of_lt ((List.pairwise_append.mp rising).2.2 e earlier _ List.mem_cons_self)
    rw [extentsFrom, List.map_cons, List.cons_append, loadSegments, if_neg (by simp)]
    rw [show (List.map Extent.base
      (extentsFrom (J.floor + span done.flatten + span batches) closed) ++
      [J.activeBase]).isEmpty = false by simp]
    refine meets_loadSegment (e := ⟨J.floor + span done.flatten, batches⟩) (· = []) keeps
      (valid.extents _ present) (limit _ member) (onDisk d kept _ member) rfl
      (fun _ nothing => by rw [nothing]; exact torn_nil _)
      (fun _ _ nothing => nothing) (fun d' => change _ member d d' kept) ?_ ?_ dies
    · intro here seg' d' mirrors frame kept'
      have next := @ih (done ++ [batches]) (segments ++ [{ seg' with
          nextOffset := (⟨J.floor + span done.flatten, batches⟩ : Extent).next }]) d' kept'
        (by rw [split]; simp) (by
          rw [extentsFrom_append]
          exact List.rel_append (mirrors_frame loaded frame others) (.cons mirrors .nil))
        (by
          rw [extentsFrom_append]
          exact List.forall_mem_append.mpr ⟨readable, List.forall_mem_singleton.mpr here⟩)
      have alone : [batches].flatten = batches := by simp
      rw [List.flatten_append, alone, span_append, ← Nat.add_assoc] at next
      exact next
    · exact fun cause => fails (cause.imp id fun bad => ⟨_, member, bad⟩)

theorem meets_loadSegments {J : Journal} {config : Config} {d : Directory}
    {post : Post μ Directory StoreError (List Segment × Nat)} (laid : Laid P J d)
    (limit : P.limit ≤ config.maxBatchBytes)
    (returns : (∀ e ∈ J.extents, ∀ b ∈ e.batches, b.Readable) → ∀ segments' d', Laid P J d' →
      List.Forall₂ (fun e seg => Mirrors e seg d') J.extents segments' →
        post.returns (segments', J.logEnd) m d')
    (fails : Shaky allowed ∨ (∃ b ∈ J.batches, ¬ b.Readable) →
      ∀ reason d', Laid P J d' → post.fails reason m d')
    (dies : Shaky allowed → ∀ d', Laid P J d' → post.dies d') :
    Meets allowed (loadSegments config (J.extents.map Extent.base) J.floor []) m d post := by
  have limits : ∀ e ∈ J.extents, ∀ b ∈ e.batches, (b.size : Int) ≤ config.maxBatchBytes := by
    intro e member b inside
    have small := laid.limit b (J.mem_batches member inside)
    omega
  have unreadable :
      ∀ e ∈ J.extents, (∃ b ∈ e.batches, ¬ b.Readable) → ∃ b ∈ J.batches, ¬ b.Readable := by
    rintro e member ⟨b, inside, bad⟩
    exact ⟨b, J.mem_batches member inside, bad⟩
  rw [show J.extents.map Extent.base = J.closedExtents.map Extent.base ++ [J.activeBase] by
    rw [Journal.extents, List.map_append]; rfl]
  refine meets_loadClosed (P := P) (Laid P J) [] J.closed laid.valid
    (fun e member => limits e (List.mem_append_left _ member)) laid (fun _ kept => kept.closed)
    (fun _ member _ _ kept => kept.changeClosed member) rfl .nil (by simp [extentsFrom])
    ?_ ?_ dies
  · intro readable segments d kept loaded
    have present : J.activeExtent ∈ J.extents := J.active_mem
    rw [loadSegments, if_neg (by simp)]
    refine meets_loadSegment (e := J.activeExtent) (P.tail J.activeExtent) (Laid P J)
      (laid.valid.extents _ present) (limits _ present) kept.active (P.tail_nil _)
      (fun left rest => (P.tail_torn _ _ rest).mono limit) (by simp) (fun d' => kept.changeActive)
      ?_ ?_ dies
    · intro here seg' d' mirrors frame kept'
      have others : ∀ e ∈ J.closedExtents, e.base ≠ J.activeBase :=
        fun e member => Nat.ne_of_lt (laid.valid.closed_lt member)
      have whole := returns
        (List.forall_mem_append.mpr ⟨readable, List.forall_mem_singleton.mpr here⟩)
        (segments ++ [{ seg' with nextOffset := J.activeExtent.next }]) d' kept'
        (List.rel_append (mirrors_frame loaded frame others) (.cons mirrors .nil))
      rw [J.logEnd_eq] at whole
      exact Meets.pure whole
    · exact fun cause => fails (cause.imp id (unreadable _ present))
  · rintro (shaky | ⟨e, member, bad⟩)
    · exact fails (Or.inl shaky)
    · exact fails (Or.inr (unreadable e (List.mem_append_left _ member) bad))

end Loading

/-! ## The store -/

section Store

variable {μ : Type} {allowed : Fault → Prop} {m : μ} {P : Policy} {J : Journal} {d : Directory}

theorem meets_removeTemps {files : List FileName} {post : Post μ Directory StoreError Unit}
    (returns : ∀ d', SameSegments d d' → post.returns () m d')
    (dies : Shaky allowed → ∀ d', SameSegments d d' → post.dies d') :
    Meets allowed (removeTemps files) m d post := by
  induction files generalizing d with
  | nil => exact Meets.pure (returns d (SameSegments.refl d))
  | cons name files ih =>
    cases name with
    | log base => exact ih returns dies
    | index base => exact ih returns dies
    | indexTmp base =>
      have erased : SameSegments d (d.erase (.indexTmp base)) := fun _ =>
        ⟨by rw [file?_erase_other (by simp)], by rw [file?_erase_other (by simp)]⟩
      apply Meets.bind
      apply Meets.ignore
      refine meets_remove_any ?_ (fun _ => ih returns dies)
        (fun shaky => dies shaky d (SameSegments.refl d))
      exact ih (fun d' same => returns d' (erased.trans same))
        (fun shaky d' same => dies shaky d' (erased.trans same))

theorem mem_logBases {files : List FileName} {base : Nat} :
    base ∈ logBases files ↔ .log base ∈ files := by
  rw [logBases, (List.perm_insertionSort _ _).mem_iff, List.mem_filterMap]
  constructor
  · rintro ⟨name, member, found⟩
    cases name <;> simp_all
  · exact fun member => ⟨_, member, rfl⟩

theorem logBases_nodup {files : List FileName} (distinct : files.Nodup) :
    (logBases files).Nodup := by
  rw [logBases, (List.perm_insertionSort _ _).nodup_iff]
  refine distinct.filterMap ?_
  intro a b base left right
  cases a <;> cases b <;> simp_all

def Named (J : Journal) (d : Directory) : Prop :=
  ∀ base, d.file? (.log base) ≠ none ↔ ∃ e ∈ J.extents, e.base = base

theorem Laid.named (laid : Laid P J d) : Named J d := by
  intro base
  refine ⟨laid.only base, ?_⟩
  rintro ⟨e, member, rfl⟩
  rcases List.mem_append.mp member with member | member
  · obtain ⟨_, _, found, _⟩ := (laid.closed e member).log
    simp [found]
  · obtain ⟨_, _, found, _⟩ := laid.active.log
    rw [List.mem_singleton.mp member, found]
    simp

theorem logBases_named (ordered : J.extents.Pairwise fun a b => a.base < b.base)
    (named : Named J d) :
    logBases d.files.keys = J.extents.map Extent.base := by
  have rising : (J.extents.map Extent.base).Pairwise (· < ·) := by
    rw [List.pairwise_map]
    exact ordered
  have same : (logBases d.files.keys).Perm (J.extents.map Extent.base) := by
    rw [List.perm_ext_iff_of_nodup (logBases_nodup d.files.keys_nodup) (rising.imp Nat.ne_of_lt)]
    intro base
    rw [mem_logBases, mem_keys_iff, List.mem_map]
    exact named base
  exact same.eq_of_pairwise (fun _ _ _ _ => Nat.le_antisymm) (List.pairwise_insertionSort _ _)
    (rising.imp Nat.le_of_lt)

theorem meets_openSegments {config : Config} {post : Post μ Directory StoreError Store}
    (ordered : J.extents.Pairwise fun a b => a.base < b.base) (named : Named J d)
    (load : ∀ d', SameSegments d d' →
      Meets allowed (loadSegments config (J.extents.map Extent.base) J.floor []) m d'
      ⟨fun loaded m' d'' =>
        post.returns ⟨config, false, false, loaded.1, loaded.1.length - 1, loaded.2, J.floor⟩ m'
          d'',
       post.fails, post.dies⟩)
    (fails : Shaky allowed → ∀ reason d', SameSegments d d' → post.fails reason m d')
    (dies : Shaky allowed → ∀ d', SameSegments d d' → post.dies d') :
    Meets allowed (openStore config) m d post := by
  have present : SameSegments d { d with present := true } := fun _ => ⟨rfl, rfl⟩
  obtain ⟨rest, first⟩ : ∃ rest, J.extents.map Extent.base = J.floor :: rest := by
    rw [J.extents_eq]
    cases J.closed with
    | nil => exact ⟨[], rfl⟩
    | cons batches closed => exact ⟨_, rfl⟩
  unfold openStore
  apply Meets.bind
  refine meets_mkdirAll ?_ (fun shaky => fails shaky _ d (SameSegments.refl d))
    (fun shaky => dies shaky d (SameSegments.refl d))
  apply Meets.bind
  refine meets_readDir ?_ (fun shaky => fails shaky _ _ present) (fun shaky => dies shaky _ present)
  apply Meets.bind
  refine meets_removeTemps ?_ (fun shaky d' same => dies shaky d' (present.trans same))
  intro d' same
  rw [show logBases (({ d with present := true } : Directory).files.keys) =
    J.extents.map Extent.base from
    logBases_named ordered named, first]
  apply Meets.bind
  rw [← first]
  exact (load d' (present.trans same)).mono (fun _ _ _ returned => Meets.pure returned)
    (fun _ _ _ failed => failed) fun _ died => died

theorem logBases_fresh (fresh : Fresh d) : logBases d.files.keys = [] := by
  rw [List.eq_nil_iff_forall_not_mem]
  intro base member
  rw [mem_logBases, mem_keys_iff] at member
  exact member (fresh base).1

theorem meets_openFresh {config : Config} {post : Post μ Directory StoreError Store}
    (fresh : Fresh d) (create : ∀ d', SameSegments d d' → Meets allowed (newSegment 0 true) m d'
      ⟨fun seg m' d'' => post.returns ⟨config, false, false, [seg], 0, 0, 0⟩ m' d'', post.fails,
        post.dies⟩)
    (fails : Shaky allowed → ∀ reason d', SameSegments d d' → post.fails reason m d')
    (dies : Shaky allowed → ∀ d', SameSegments d d' → post.dies d') :
    Meets allowed (openStore config) m d post := by
  have present : SameSegments d { d with present := true } := fun _ => ⟨rfl, rfl⟩
  unfold openStore
  apply Meets.bind
  refine meets_mkdirAll ?_ (fun shaky => fails shaky _ d (SameSegments.refl d))
    (fun shaky => dies shaky d (SameSegments.refl d))
  apply Meets.bind
  refine meets_readDir ?_ (fun shaky => fails shaky _ _ present) (fun shaky => dies shaky _ present)
  apply Meets.bind
  refine meets_removeTemps ?_ (fun shaky d' same => dies shaky d' (present.trans same))
  intro d' same
  rw [show logBases (({ d with present := true } : Directory).files.keys) = []
    from logBases_fresh fresh]
  apply Meets.bind
  exact (create d' (present.trans same)).mono (fun _ _ _ returned => Meets.pure returned)
    (fun _ _ _ failed => failed) fun _ died => died

theorem Journal.initial_valid : Journal.initial.Valid :=
  ⟨fun e member => by
    rw [List.mem_singleton.mp member]
    exact ⟨by decide, trivial, fun before b after split => by cases before <;> cases split⟩,
   fun _ member => by cases member⟩

/-- The first segment's files appear one after the other, and every state in between is empty. -/
theorem Fresh.touched {d' : Directory} (fresh : Fresh d) (touched : Touched 0 d d') :
    Holds P Journal.initial d' := by
  have log : (d.touch (.log 0)).file? (.log 0) = some ⟨[], []⟩ := file?_touch_missing (fresh 0).1
  have kept : ∀ file, (d.touch (.log 0)).file? (.index 0) = some file → file.data = [] := by
    intro file found
    rw [file?_touch_other (by simp)] at found
    exact ((fresh 0).2 file found).2
  have frame := touched.frame
  have laid : d'.file? (.log 0) = some ⟨[], []⟩ →
      (∀ file, d'.file? (.index 0) = some file → file.data = []) →
      Laid P Journal.initial d' := by
    intro created empty
    refine ⟨Journal.initial_valid, by simp [Journal.initial, Journal.batches], by
      simp [Journal.initial,
      Journal.closedExtents, extentsFrom], ⟨⟨_, [], created, rfl, P.tail_nil _⟩, ?_⟩, ?_, ?_⟩
    · intro file found
      rw [empty file found]
      exact P.index_holds _ [] [] (Journal.initial_valid.extents _ (List.mem_singleton_self _))
        (indexHolds_nil _)
    · intro base found
      by_cases zero : base = 0
      · exact ⟨_, List.mem_singleton_self _, zero.symm⟩
      · rw [(frame base zero).1] at found
        exact absurd (fresh base).1 found
    · intro base above
      rw [(frame base (Nat.ne_of_gt above)).2]
      by_contra found
      obtain ⟨file, there⟩ := Option.ne_none_iff_exists'.mp found
      exact absurd ((fresh base).2 file there).1 (Nat.ne_of_gt above)
  cases touched with
  | nothing => exact Or.inr ⟨rfl, fresh⟩
  | log => exact Or.inl (laid log kept)
  | both =>
    refine Or.inl (laid (by rw [file?_touch_other (by simp), log]) fun file found => ?_)
    obtain ⟨other, found', variants⟩ := file?_touch_self (d.touch (.log 0)) (.index 0)
    rw [found, Option.some.injEq] at found'
    subst found'
    rcases variants with there | ⟨_, rfl⟩
    · exact kept file there
    · rfl

/-- Opening a directory brings the journal it holds to memory. It fails only when the disk does or
    when some batch cannot be read back, and leaves the journal on the disk in any case. -/
theorem meets_openStore {config : Config} {post : Post μ Directory StoreError Store}
    (holds : Holds P J d) (limit : P.limit ≤ config.maxBatchBytes)
    (returns : ∀ s d',
      Represents P.limit J s d' → s.config = config → s.closed = false → s.writeFailed = false →
      post.returns s m d')
    (fails : Shaky allowed ∨ (∃ b ∈ J.batches, ¬ b.Readable) →
      ∀ reason d', Holds P J d' → post.fails reason m d')
    (dies : Shaky allowed → ∀ d', Holds P J d' → post.dies d') :
    Meets allowed (openStore config) m d post := by
  rcases holds with laid | ⟨initial, fresh⟩
  · refine meets_openSegments laid.valid.rising laid.named ?_
      (fun shaky reason d' same => fails (Or.inl shaky) reason d' (Or.inl (laid.sameSegments same)))
      (fun shaky d' same => dies shaky d' (Or.inl (laid.sameSegments same)))
    intro d' same
    refine meets_loadSegments (laid.sameSegments same) limit ?_
      (fun cause reason d'' kept => fails cause reason d'' (Or.inl kept))
      (fun shaky d'' kept => dies shaky d'' (Or.inl kept))
    intro _ segments d'' kept mirrors
    have length : segments.length - 1 = J.closed.length := by
      rw [← mirrors.length_eq, J.extents_eq, extentsFrom_length]
      simp
    exact returns _ d'' ⟨kept.valid, kept.limit, mirrors, length, rfl, rfl, kept.only, kept.above⟩
      rfl rfl rfl
  · subst initial
    refine meets_openFresh fresh ?_
      (fun shaky reason d' same =>
        fails (Or.inl shaky) reason d' (Or.inr ⟨rfl, fresh.sameSegments same⟩))
      (fun shaky d' same => dies shaky d' (Or.inr ⟨rfl, fresh.sameSegments same⟩))
    intro d' same
    have fresh' := fresh.sameSegments same
    refine meets_newSegment ?_
      (fun shaky _ d'' touched => fails (Or.inl shaky) _ d'' (fresh'.touched touched))
      (fun shaky d'' touched => dies shaky d'' (fresh'.touched touched))
    intro log index foundLog foundIndex
    have mirrors :=
      mirrors_created true (fresh' 0).1 (fun file found => ((fresh' 0).2 file found).2) foundLog
        foundIndex
    rcases (fresh'.touched (P := P) .both) with kept | ⟨_, impossible⟩
    · exact returns _ _ ⟨kept.valid, kept.limit, .cons mirrors .nil, rfl, rfl, rfl, kept.only,
        kept.above⟩ rfl rfl rfl
    · rw [(impossible 0).1] at foundLog
      cases foundLog

end Store

end MessageBroker.Storage
